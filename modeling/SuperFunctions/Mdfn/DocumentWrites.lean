import Mathlib.Data.List.Pairwise
import SuperFunctions.Mdfn.DocumentService

/-!
# Every write of the document service is in its place

A write that succeeds replaces the version it named of the document its caller was authorized for,
and the history has one row for each version. This needs that no request commits on a document that
was deleted and created again since the request was authorized: the transactions look at the id and
the version only.
-/
namespace SuperFunctions.Mdfn.DocumentWrites

open DocumentService Lib.OrderedMap Lib.KeyedTables Lib.Processes Lib.Transition List OMap Option
open Nat

variable {service : Service} {db db' : Store}

/-! ## What the transactions do -/

variable {document : DocumentRecord}

theorem insertVersion_ok {authorId changeSource : String}
    (h : insertVersion db document authorId changeSource = .ok db') :
    db.versions.get (document.id, document.version) = none ∧
      db' = { db with versions :=
        db.versions.set (document.id, document.version) ⟨document, authorId, changeSource⟩ } := by
  simp only [insertVersion] at h
  split at h
  · cases h
  · rename_i hfree
    cases h
    exact ⟨by simpa using hfree, rfl⟩

theorem insertReceipt_ok {receipt : Receipt} (h : insertReceipt db receipt = .ok db') :
    db.receipts.get (receipt.documentId, receipt.idempotencyKey) = none ∧
      db' = { db with receipts :=
        db.receipts.set (receipt.documentId, receipt.idempotencyKey) receipt } := by
  simp only [insertReceipt] at h
  split at h
  · cases h
  · rename_i hfree
    cases h
    exact ⟨by simpa using hfree, rfl⟩

/-- The document of a `create`. -/
def newDocument (service : Service) (db : Store) (principal : Principal) (id : String)
    (input : CreateInput) : DocumentRecord where
  id := id
  collaborationGeneration := db.generations
  ownerId := principal.id
  tenantId := principal.tenantId
  title := input.title
  markdown := input.markdown
  sourceHash := service.hashString input.markdown
  schemaHash := service.schemaHash
  sidecar := input.sidecar
  version := 1

variable {id : String} {principal : Principal}

theorem insertDocument_ok {input : CreateInput}
    (h : insertDocument service db principal id input = .ok (db', document)) :
    document = newDocument service db principal id input ∧ db.documents.get id = none ∧
      db.versions.get (id, 1) = none ∧
      db' = { db with
        documents := db.documents.set id document
        generations := db.generations + 1
        versions := db.versions.set (id, 1) ⟨document, principal.id, "create"⟩ } := by
  simp only [insertDocument] at h
  split at h
  · cases h
  rename_i hfree
  obtain ⟨inserted, hinserted, hfinal⟩ := bind_ok h
  obtain ⟨hversion, rfl⟩ := insertVersion_ok hinserted
  cases hfinal
  exact ⟨rfl, by simpa using hfree, hversion, rfl⟩

/-- The receipt of a write, if it has a key. -/
def withReceipt (db : Store) (id : String) (w : Write) (result : DocumentRecord) :
    OMap (String × String) Receipt :=
  match givenKey w.input.idempotencyKey with
  | none => db.receipts
  | some key => db.receipts.set (id, key)
    ⟨id, key, w.options.operation, w.options.payloadHash, result⟩

def commitOf (task : Nat) (id : String) (w : Write) (current before after : DocumentRecord) :
    Commit :=
  ⟨task, id, w.input.expectedVersion, givenKey w.input.idempotencyKey, w.options.operation,
    w.options.payloadHash, current :: w.seen, before, after⟩

theorem commitUpdate_ok {task : Nat} {w : Write} {current after : DocumentRecord}
    (h : commitUpdate db task principal id w current after = .ok db') :
    ∃ before, db.documents.get id = some before ∧ before.version = w.input.expectedVersion ∧
      (∀ key, givenKey w.input.idempotencyKey = some key → db.receipts.get (id, key) = none) ∧
      db' = { db with
        documents := db.documents.set id after
        versions := db.versions.set (after.id, after.version)
          ⟨after, principal.id, w.input.changeSource.getD "update"⟩
        receipts := withReceipt db id w after
        commits := commitOf task id w current before after :: db.commits } := by
  simp only [commitUpdate] at h
  split at h
  · rename_i before hfound
    obtain ⟨hbefore, hversion⟩ := filter_eq_some_iff.mp hfound
    obtain ⟨inserted, hinserted, hfinal⟩ := bind_ok h
    obtain ⟨-, rfl⟩ := insertVersion_ok hinserted
    refine ⟨before, hbefore, of_decide_eq_true hversion, ?_⟩
    cases hkey : givenKey w.input.idempotencyKey with
    | none =>
      rw [hkey] at hfinal
      cases hfinal
      exact ⟨fun key h => (by cases h), by simp [withReceipt, commitOf, hkey]⟩
    | some key =>
      rw [hkey] at hfinal
      obtain ⟨hfree, rfl⟩ := insertReceipt_ok hfinal
      refine ⟨fun other heq => ?_, by simp [withReceipt, commitOf, hkey]⟩
      cases heq
      exact hfree
  · cases h

theorem nextDocument_ok {current after : DocumentRecord} {input : UpdateInput}
    {options : WriteUpdateOptions} (h : nextDocument service current input options = .ok after) :
    current.version = input.expectedVersion ∧ after.id = current.id ∧
      after.incarnation = current.incarnation ∧ after.version = current.version + 1 := by
  simp only [nextDocument] at h
  by_cases hversion : current.version = input.expectedVersion
  · rw [if_neg (not_not.mpr hversion)] at h
    repeat' split at h
    all_goals cases h
    all_goals exact ⟨hversion, rfl, rfl, rfl⟩
  · rw [if_pos hversion] at h
    cases h

/-! ## The invariant of the database -/

/-- The document was stored: its incarnation is an old one, and of the two versions of a document
the stored one is not older. -/
def Known (db : Store) (document : DocumentRecord) : Prop :=
  document.collaborationGeneration < db.generations ∧
    ∀ stored, db.documents.get document.id = some stored →
      stored.collaborationGeneration = document.collaborationGeneration →
      document.version ≤ stored.version ∧ (document.version = stored.version → document = stored)

/-- A write has replaced the version it named of the document its caller was authorized for. -/
structure InPlace (c : Commit) : Prop where
  expected : c.before.version = c.expectedVersion
  raised : c.after.version = c.before.version + 1
  kept : c.after.incarnation = c.before.incarnation
  authorized : ∀ document ∈ c.authorized, document.incarnation = c.before.incarnation
  computed : c.before ∈ c.authorized

/-- Two writes to one incarnation: they named different versions and different keys. -/
def Apart (c c' : Commit) : Prop :=
  c.documentId = c'.documentId → c.after.incarnation = c'.after.incarnation →
    c.expectedVersion ≠ c'.expectedVersion ∧
      ∀ key, c.idempotencyKey = some key → c'.idempotencyKey ≠ some key

structure DbInv (db : Store) : Prop where
  keyed : Keyed DocumentRecord.id db.documents
  stored : ∀ id document, db.documents.get id = some document → Known db document
  versionsKeyed : Keyed (fun row : VersionRecord => (row.document.id, row.document.version))
    db.versions
  receiptsKeyed : Keyed (fun receipt : Receipt => (receipt.documentId, receipt.idempotencyKey))
    db.receipts
  history : ∀ id n, (db.versions.get (id, n)).isSome = true ↔
    ∃ document, db.documents.get id = some document ∧ 1 ≤ n ∧ n ≤ document.version
  own : ∀ id n row document, db.versions.get (id, n) = some row →
    db.documents.get id = some document → row.document.incarnation = document.incarnation
  latest : ∀ id document, db.documents.get id = some document →
    ∃ row, db.versions.get (id, document.version) = some row ∧ row.document = document
  receipts : ∀ id key receipt, db.receipts.get (id, key) = some receipt →
    (∃ stored, db.documents.get id = some stored ∧
      stored.incarnation = receipt.result.incarnation) ∧
    ∃ c ∈ db.commits, c.documentId = id ∧ c.idempotencyKey = some key ∧
      c.operation = receipt.operation ∧ c.payloadHash = receipt.payloadHash ∧
      c.after = receipt.result
  keys : ∀ c ∈ db.commits, ∀ key document, c.idempotencyKey = some key →
    db.documents.get c.documentId = some document →
    document.collaborationGeneration = c.after.collaborationGeneration →
    (db.receipts.get (c.documentId, key)).isSome = true
  committed : ∀ c ∈ db.commits, c.after.id = c.documentId ∧ Known db c.after
  inPlace : ∀ c ∈ db.commits, InPlace c
  apart : db.commits.Pairwise Apart
  removals : ∀ r ∈ db.removals, r.authorized.incarnation = r.removed.incarnation

theorem empty_inv : DbInv Store.empty where
  keyed := keyed_empty _
  stored _ _ h := by cases h
  versionsKeyed := keyed_empty _
  receiptsKeyed := keyed_empty _
  history id n := by
    constructor
    · exact nofun
    · rintro ⟨document, h, -⟩
      cases h
  own _ _ _ _ h := by cases h
  latest _ _ h := by cases h
  receipts _ _ _ h := by cases h
  keys := forall_mem_nil _
  committed := forall_mem_nil _
  inPlace := forall_mem_nil _
  apart := List.Pairwise.nil
  removals := forall_mem_nil _

theorem generation_eq {a b : DocumentRecord} (h : a.incarnation = b.incarnation) :
    a.collaborationGeneration = b.collaborationGeneration :=
  congrArg Incarnation.collaborationGeneration h

/-! ## The three transactions keep it -/

/-- What a transaction of a task leaves as it was for the others. -/
structure Advances (task : Nat) (db db' : Store) : Prop where
  known : ∀ document, Known db document → Known db' document
  commits : ∀ c ∈ db.commits, c ∈ db'.commits
  added : ∀ c ∈ db'.commits, c ∈ db.commits ∨ c.task = task

theorem advances_refl (task : Nat) (db : Store) : Advances task db db :=
  ⟨fun _ => id, fun _ => id, fun _ h => .inl h⟩

variable {other : DocumentRecord}

section Insert

variable {principal : Principal} {id : String} {input : CreateInput} {document : DocumentRecord}

theorem insert_known (h : insertDocument service db principal id input = .ok (db', document))
    (hknown : Known db other) : Known db' other := by
  obtain ⟨rfl, -, -, rfl⟩ := insertDocument_ok h
  refine ⟨lt_succ_of_lt hknown.1, ?_⟩
  intro stored hget hgeneration
  rw [get_set] at hget
  split at hget
  · -- a new generation is no old one
    cases hget
    have hlt := hknown.1
    rw [← hgeneration] at hlt
    exact absurd hlt (lt_irrefl _)
  · exact hknown.2 stored hget hgeneration

theorem insert_inv (hinv : DbInv db)
    (h : insertDocument service db principal id input = .ok (db', document)) :
    DbInv db' ∧ Known db' document := by
  have hknown : ∀ {other : DocumentRecord}, Known db other → Known db' other :=
    fun hother => insert_known h hother
  obtain ⟨hdocument, hfree, hnone, hdb⟩ := insertDocument_ok h
  have hid : document.id = id := by rw [hdocument]; rfl
  have hversion : document.version = 1 := by rw [hdocument]; rfl
  have hgeneration : document.collaborationGeneration = db.generations := by rw [hdocument]; rfl
  have hget : ∀ k, db'.documents.get k = if k = id then some document else db.documents.get k := by
    intro k
    rw [hdb]
    exact get_set _ _ _ _
  have hrow : ∀ k, db'.versions.get k =
      if k = (id, 1) then some ⟨document, principal.id, "create"⟩ else db.versions.get k := by
    intro k
    rw [hdb]
    exact get_set _ _ _ _
  have hnew : Known db' document := by
    refine ⟨by rw [hdb, hgeneration]; exact lt_succ_self _, ?_⟩
    intro stored hstored _
    rw [hget, hid, if_pos rfl] at hstored
    cases hstored
    exact ⟨le_refl _, fun _ => rfl⟩
  have hcommits : db'.commits = db.commits := by rw [hdb]
  have hreceipts : db'.receipts = db.receipts := by rw [hdb]
  refine ⟨?_, hnew⟩
  constructor
  · rw [hdb]
    exact hinv.keyed.set hid
  · intro k stored hstored
    rw [hget] at hstored
    split at hstored
    · cases hstored
      exact hnew
    · exact hknown (hinv.stored k stored hstored)
  · rw [hdb]
    exact hinv.versionsKeyed.set (by rw [hid, hversion])
  · rw [hreceipts]
    exact hinv.receiptsKeyed
  · intro k n
    have hold := hinv.history k n
    rw [hrow, hget]
    by_cases hk : k = id
    · subst hk
      rw [hfree] at hold
      have hrows : db.versions.get (k, n) = none := by
        cases hget : db.versions.get (k, n) with
        | none => rfl
        | some row =>
          rw [hget] at hold
          obtain ⟨_, hfalse, -⟩ := hold.mp rfl
          cases hfalse
      rw [hrows, if_pos rfl]
      constructor
      · intro hsome
        split at hsome
        · rename_i heq
          obtain ⟨-, rfl⟩ := Prod.mk.inj heq
          exact ⟨document, rfl, le_refl _, le_of_eq hversion.symm⟩
        · cases hsome
      · rintro ⟨stored, hstored, hlow, hhigh⟩
        cases hstored
        have hone : n = 1 := by omega
        rw [hone, if_pos rfl]
        rfl
    · rwa [if_neg (fun heq => hk (Prod.mk.inj heq).1), if_neg hk]
  · intro k n row stored hget' hstored
    rw [hrow] at hget'
    rw [hget] at hstored
    split at hget'
    · rename_i heq
      obtain ⟨rfl, rfl⟩ := Prod.mk.inj heq
      rw [if_pos rfl] at hstored
      cases hget'
      cases hstored
      rfl
    · by_cases hk : k = id
      · -- no row is left from an earlier document
        subst hk
        have hsome : (db.versions.get (k, n)).isSome = true := by rw [hget']; rfl
        obtain ⟨_, hfalse, -⟩ := (hinv.history k n).mp hsome
        rw [hfree] at hfalse
        cases hfalse
      · rw [if_neg hk] at hstored
        exact hinv.own k n row stored hget' hstored
  · intro k stored hstored
    rw [hget] at hstored
    split at hstored
    · rename_i hk
      cases hstored
      rw [hk, hversion, hrow, if_pos rfl]
      exact ⟨_, rfl, rfl⟩
    · rename_i hk
      obtain ⟨row, hrow', hsame⟩ := hinv.latest k stored hstored
      refine ⟨row, ?_, hsame⟩
      rwa [hrow, if_neg (fun heq => hk (Prod.mk.inj heq).1)]
  · intro k key receipt hreceipt
    rw [hreceipts] at hreceipt
    obtain ⟨⟨stored, hstored, hsame⟩, hcommit⟩ := hinv.receipts k key receipt hreceipt
    refine ⟨⟨stored, ?_, hsame⟩, by rw [hcommits]; exact hcommit⟩
    rw [hget]
    split
    · rename_i hk
      rw [hk, hfree] at hstored
      cases hstored
    · exact hstored
  · intro c hc key stored hkey hstored hsame
    rw [hcommits] at hc
    rw [hget] at hstored
    rw [hreceipts]
    split at hstored
    · cases hstored
      have hlt := (hinv.committed c hc).2.1
      rw [← hsame, hgeneration] at hlt
      exact absurd hlt (lt_irrefl _)
    · exact hinv.keys c hc key stored hkey hstored hsame
  · intro c hc
    rw [hcommits] at hc
    exact ⟨(hinv.committed c hc).1, hknown (hinv.committed c hc).2⟩
  · rw [hcommits]
    exact hinv.inPlace
  · rw [hcommits]
    exact hinv.apart
  · rw [hdb]
    exact hinv.removals

end Insert

section Remove

variable {id : String} {current : DocumentRecord}

theorem remove_documents (k : String) :
    (removeDocument db id current).documents.get k = if k = id then none else db.documents.get k :=
  get_delete _ _ _

theorem remove_known (h : Known db other) : Known (removeDocument db id current) other := by
  refine ⟨h.1, ?_⟩
  intro stored hget hgeneration
  rw [remove_documents] at hget
  split at hget
  · cases hget
  · exact h.2 stored hget hgeneration

theorem remove_inv (hinv : DbInv db)
    (hsame : ∀ stored, db.documents.get id = some stored →
      current.incarnation = stored.incarnation) :
    DbInv (removeDocument db id current) := by
  have hrow : ∀ k n, (removeDocument db id current).versions.get (k, n) =
      (db.versions.get (k, n)).filter fun row => !decide (row.document.id = id) :=
    fun k n => get_deleteMany _ _ _
  have hreceipt : ∀ k key, (removeDocument db id current).receipts.get (k, key) =
      (db.receipts.get (k, key)).filter fun receipt => !decide (receipt.documentId = id) :=
    fun k key => get_deleteMany _ _ _
  have hrowKept : ∀ {k n}, k ≠ id → (removeDocument db id current).versions.get (k, n) =
      db.versions.get (k, n) := by
    intro k n hk
    rw [hrow]
    cases hget : db.versions.get (k, n) with
    | none => rfl
    | some row =>
      have hkey := hinv.versionsKeyed _ _ hget
      have hid : row.document.id = k := (Prod.mk.inj hkey).1
      simp [Option.filter, hid, hk]
  constructor
  · intro k stored hstored
    rw [remove_documents] at hstored
    split at hstored
    · cases hstored
    · exact hinv.keyed k stored hstored
  · intro k stored hstored
    rw [remove_documents] at hstored
    split at hstored
    · cases hstored
    · exact remove_known (hinv.stored k stored hstored)
  · exact hinv.versionsKeyed.deleteMany _
  · exact hinv.receiptsKeyed.deleteMany _
  · intro k n
    rw [remove_documents]
    by_cases hk : k = id
    · rw [if_pos hk]
      constructor
      · intro hsome
        obtain ⟨row, hget⟩ := isSome_iff_exists.mp hsome
        rw [hrow, filter_eq_some_iff] at hget
        obtain ⟨hget, hother⟩ := hget
        have hid : row.document.id = k := (Prod.mk.inj (hinv.versionsKeyed _ _ hget)).1
        simp [hid, hk] at hother
      · rintro ⟨stored, hfalse, -⟩
        cases hfalse
    · rw [hrowKept hk, if_neg hk]
      exact hinv.history k n
  · intro k n row stored hget hstored
    rw [remove_documents] at hstored
    split at hstored
    · cases hstored
    · rename_i hk
      rw [hrowKept hk] at hget
      exact hinv.own k n row stored hget hstored
  · intro k stored hstored
    rw [remove_documents] at hstored
    split at hstored
    · cases hstored
    · rename_i hk
      rw [hrowKept hk]
      exact hinv.latest k stored hstored
  · intro k key receipt hget
    rw [hreceipt, filter_eq_some_iff] at hget
    obtain ⟨hget, hother⟩ := hget
    have hid : receipt.documentId = k := (Prod.mk.inj (hinv.receiptsKeyed _ _ hget)).1
    have hk : k ≠ id := by simpa [hid] using hother
    obtain ⟨⟨stored, hstored, hkept⟩, hcommit⟩ := hinv.receipts k key receipt hget
    refine ⟨⟨stored, ?_, hkept⟩, hcommit⟩
    rwa [remove_documents, if_neg hk]
  · intro c hc key stored hkey hstored hgeneration
    rw [remove_documents] at hstored
    split at hstored
    · cases hstored
    rename_i hk
    have hold := hinv.keys c hc key stored hkey hstored hgeneration
    obtain ⟨receipt, hget⟩ := isSome_iff_exists.mp hold
    have hid : receipt.documentId = c.documentId :=
      (Prod.mk.inj (hinv.receiptsKeyed _ _ hget)).1
    rw [hreceipt, hget]
    simp [Option.filter, hid, hk]
  · intro c hc
    exact ⟨(hinv.committed c hc).1, remove_known (hinv.committed c hc).2⟩
  · exact hinv.inPlace
  · exact hinv.apart
  intro r hr
  simp only [removeDocument] at hr
  split at hr
  · exact hinv.removals r hr
  · rename_i removed hremoved
    rcases mem_cons.mp hr with rfl | hr
    · exact hsame removed hremoved
    · exact hinv.removals r hr

end Remove

variable {key : String} {c : Commit}

section Commit

variable {task : Nat} {principal : Principal} {id : String} {w : Write}
  {current after before : DocumentRecord}

/-- What the task knows about the write it is about to commit. -/
structure Ready (db : Store) (id : String) (w : Write) (current after : DocumentRecord) : Prop where
  known : Known db current
  id : current.id = id
  expected : current.version = w.input.expectedVersion
  kept : after.id = current.id ∧ after.incarnation = current.incarnation
  raised : after.version = current.version + 1

/-- The row to be replaced is of the document that every read of the request was of. -/
def SameIncarnation (db : Store) (id : String) (w : Write) (current : DocumentRecord) : Bool :=
  (db.documents.get id).all fun stored => stored.version ≠ w.input.expectedVersion ||
    (current :: w.seen).all fun document => document.incarnation = stored.incarnation

theorem ready_before (hready : Ready db id w current after)
    (hsame : SameIncarnation db id w current = true) (hbefore : db.documents.get id = some before)
    (hversion : before.version = w.input.expectedVersion) :
    before = current ∧ ∀ document ∈ current :: w.seen, document.incarnation = before.incarnation := by
  simp only [SameIncarnation, hbefore, Option.all_some, hversion, ne_eq, not_true_eq_false,
    decide_false, Bool.false_or, List.all_eq_true, decide_eq_true_eq] at hsame
  have hcurrent := hsame current mem_cons_self
  rw [← hready.id] at hbefore
  have hknown := hready.known.2 before hbefore (generation_eq hcurrent.symm)
  exact ⟨(hknown.2 (by rw [hready.expected, hversion])).symm, hsame⟩

theorem commit_known (hready : Ready db id w current after)
    (hsame : SameIncarnation db id w current = true)
    (h : commitUpdate db task principal id w current after = .ok db') (hother : Known db other) :
    Known db' other := by
  obtain ⟨before, hbefore, hversion, -, rfl⟩ := commitUpdate_ok h
  obtain ⟨rfl, -⟩ := ready_before hready hsame hbefore hversion
  refine ⟨hother.1, ?_⟩
  intro stored hget hgeneration
  rw [get_set] at hget
  split at hget
  · rename_i hid
    cases hget
    rw [generation_eq hready.kept.2] at hgeneration
    have hold := (hother.2 before (by rw [hid]; exact hbefore) hgeneration).1
    have hraised := hready.raised
    exact ⟨by omega, fun heq => by omega⟩
  · exact hother.2 stored hget hgeneration

theorem get_withReceipt (hfree : ∀ key, givenKey w.input.idempotencyKey = some key →
      db.receipts.get (id, key) = none) {k : String} {receipt : Receipt}
    (h : (withReceipt db id w after).get (k, key) = some receipt) :
    db.receipts.get (k, key) = some receipt ∨
      (k = id ∧ givenKey w.input.idempotencyKey = some key ∧
        receipt = ⟨id, key, w.options.operation, w.options.payloadHash, after⟩) := by
  unfold withReceipt at h
  split at h
  · exact .inl h
  rename_i given hgiven
  rw [get_set] at h
  split at h
  · rename_i heq
    obtain ⟨rfl, rfl⟩ := Prod.mk.inj heq
    exact .inr ⟨rfl, hgiven, (some.inj h).symm⟩
  · exact .inl h

theorem withReceipt_keeps {k : String} (h : (db.receipts.get (k, key)).isSome = true) :
    ((withReceipt db id w after).get (k, key)).isSome = true := by
  unfold withReceipt
  split
  · exact h
  · rw [get_set]
    split
    · rfl
    · exact h

theorem withReceipt_own (h : givenKey w.input.idempotencyKey = some key) :
    ((withReceipt db id w after).get (id, key)).isSome = true := by
  simp [withReceipt, h, get_set]

/-- The new write names a version and a key that no earlier one to the document did. -/
theorem commit_apart (hinv : DbInv db) (hready : Ready db id w current after)
    (hbefore : db.documents.get id = some current)
    (hfree : ∀ key, givenKey w.input.idempotencyKey = some key →
      db.receipts.get (id, key) = none) (hc : c ∈ db.commits) :
    Apart (commitOf task id w current current after) c := by
  intro hid hincarnation
  have hid : id = c.documentId := hid
  have hgeneration : current.collaborationGeneration = c.after.collaborationGeneration := by
    rw [← generation_eq hready.kept.2]
    exact generation_eq hincarnation
  obtain ⟨hown, hknown⟩ := hinv.committed c hc
  have hplace := hinv.inPlace c hc
  constructor
  · show w.input.expectedVersion ≠ c.expectedVersion
    have hle := (hknown.2 current (by rw [hown, ← hid]; exact hbefore) hgeneration).1
    have hraised := hplace.raised
    have hexpected := hplace.expected
    have hcurrent := hready.expected
    omega
  · intro key hkey hother
    have hsome := hinv.keys c hc key current hother (by rw [← hid]; exact hbefore) hgeneration
    rw [← hid, hfree key hkey] at hsome
    cases hsome

theorem commit_inv (hinv : DbInv db) (hready : Ready db id w current after)
    (hsame : SameIncarnation db id w current = true)
    (h : commitUpdate db task principal id w current after = .ok db') :
    DbInv db' ∧ commitOf task id w current current after ∈ db'.commits := by
  have hknown : ∀ {other : DocumentRecord}, Known db other → Known db' other :=
    fun hother => commit_known hready hsame h hother
  obtain ⟨before, hbefore, hversion, hfree, hdb⟩ := commitUpdate_ok h
  obtain ⟨rfl, hseen⟩ := ready_before hready hsame hbefore hversion
  obtain ⟨hid, hkept⟩ := hready.kept
  rw [hready.id] at hid
  have hraised := hready.raised
  have hget : ∀ k, db'.documents.get k = if k = id then some after else db.documents.get k := by
    intro k
    rw [hdb]
    exact get_set _ _ _ _
  have hrow : ∀ k, db'.versions.get k = if k = (id, after.version) then
      some ⟨after, principal.id, w.input.changeSource.getD "update"⟩ else db.versions.get k := by
    intro k
    rw [hdb, ← hid]
    exact get_set _ _ _ _
  have hreceipts : db'.receipts = withReceipt db id w after := by rw [hdb]
  have hcommits : db'.commits = commitOf task id w before before after :: db.commits := by rw [hdb]
  have hafter : Known db' after := by
    refine ⟨?_, ?_⟩
    · rw [generation_eq hkept, hdb]
      exact hready.known.1
    · intro stored hstored _
      rw [hget, hid, if_pos rfl] at hstored
      cases hstored
      exact ⟨le_refl _, fun _ => rfl⟩
  refine ⟨?_, by rw [hcommits]; exact mem_cons_self⟩
  constructor
  · rw [hdb]
    exact hinv.keyed.set hid
  · intro k stored hstored
    rw [hget] at hstored
    split at hstored
    · cases hstored
      exact hafter
    · exact hknown (hinv.stored k stored hstored)
  · rw [hdb]
    exact hinv.versionsKeyed.set rfl
  · rw [hreceipts]
    unfold withReceipt
    split
    · exact hinv.receiptsKeyed
    · exact hinv.receiptsKeyed.set rfl
  · intro k n
    have hold := hinv.history k n
    rw [hrow, hget]
    by_cases hk : k = id
    · subst hk
      rw [if_pos rfl]
      by_cases hn : n = after.version
      · rw [hn, if_pos rfl]
        constructor
        · intro _
          exact ⟨after, rfl, by omega, le_refl _⟩
        · intro _
          rfl
      · rw [if_neg (fun heq => hn (Prod.mk.inj heq).2), hold]
        constructor
        · rintro ⟨stored, hstored, hlow, hhigh⟩
          rw [hbefore] at hstored
          cases hstored
          exact ⟨after, rfl, hlow, by omega⟩
        · rintro ⟨stored, hstored, hlow, hhigh⟩
          cases hstored
          exact ⟨before, hbefore, hlow, by omega⟩
    · rwa [if_neg (fun heq => hk (Prod.mk.inj heq).1), if_neg hk]
  · intro k n row stored hrow' hstored
    rw [hrow] at hrow'
    rw [hget] at hstored
    split at hrow'
    · rename_i heq
      obtain ⟨rfl, rfl⟩ := Prod.mk.inj heq
      rw [if_pos rfl] at hstored
      cases hrow'
      cases hstored
      rfl
    · split at hstored
      · rename_i hk
        cases hstored
        rw [hk] at hrow'
        rw [hkept]
        exact hinv.own id n row before hrow' hbefore
      · exact hinv.own k n row stored hrow' hstored
  · intro k stored hstored
    rw [hget] at hstored
    split at hstored
    · rename_i hk
      cases hstored
      rw [hk, hrow, if_pos rfl]
      exact ⟨_, rfl, rfl⟩
    · rename_i hk
      obtain ⟨row, hrow', hdocument⟩ := hinv.latest k stored hstored
      refine ⟨row, ?_, hdocument⟩
      rwa [hrow, if_neg (fun heq => hk (Prod.mk.inj heq).1)]
  · intro k key receipt hreceipt
    rw [hreceipts] at hreceipt
    rw [hget, hcommits]
    rcases get_withReceipt hfree hreceipt with hold | ⟨rfl, hkey, rfl⟩
    · obtain ⟨⟨stored, hstored, hown⟩, c, hc, hcommit⟩ := hinv.receipts k key receipt hold
      refine ⟨?_, c, mem_cons_of_mem _ hc, hcommit⟩
      split
      · rename_i hk
        rw [hk, hbefore] at hstored
        cases hstored
        exact ⟨after, rfl, hkept.trans hown⟩
      · exact ⟨stored, hstored, hown⟩
    · exact ⟨⟨after, if_pos rfl, rfl⟩, _, mem_cons_self, rfl, hkey, rfl, rfl, rfl⟩
  · intro c hc key stored hkey hstored hgeneration
    rw [hcommits] at hc
    rw [hreceipts]
    rcases mem_cons.mp hc with rfl | hc
    · exact withReceipt_own hkey
    apply withReceipt_keeps
    rw [hget] at hstored
    split at hstored
    · rename_i hk
      cases hstored
      rw [generation_eq hkept] at hgeneration
      exact hinv.keys c hc key before hkey (by rw [hk]; exact hbefore) hgeneration
    · exact hinv.keys c hc key stored hkey hstored hgeneration
  · intro c hc
    rw [hcommits] at hc
    rcases mem_cons.mp hc with rfl | hc
    · exact ⟨hid, hafter⟩
    · exact ⟨(hinv.committed c hc).1, hknown (hinv.committed c hc).2⟩
  · intro c hc
    rw [hcommits] at hc
    rcases mem_cons.mp hc with rfl | hc
    · exact ⟨hversion, hraised, hkept, hseen, mem_cons_self⟩
    · exact hinv.inPlace c hc
  · rw [hcommits]
    exact pairwise_cons.mpr ⟨fun c hc => commit_apart hinv hready hbefore hfree hc, hinv.apart⟩
  · rw [hdb]
    exact hinv.removals

end Commit

/-! ## Receipts -/

instance apart_symm : Std.Symm Apart where
  symm c c' h hid hincarnation := by
    obtain ⟨hversion, hkey⟩ := h hid.symm hincarnation.symm
    exact ⟨hversion.symm, fun key hc hc' => hkey key hc' hc⟩

theorem commit_unique (hinv : DbInv db) {c' : Commit} (hc : c ∈ db.commits) (hc' : c' ∈ db.commits)
    (hid : c.documentId = c'.documentId) (hincarnation : c.after.incarnation = c'.after.incarnation)
    (hkey : c.idempotencyKey = some key) (hkey' : c'.idempotencyKey = some key) : c = c' := by
  by_contra hne
  have hapart := hinv.apart.forall hc hc' hne
  exact (hapart hid hincarnation).2 key hkey hkey'

theorem replay_found (hinv : DbInv db) (hc : c ∈ db.commits) {stored : DocumentRecord}
    (hkey : c.idempotencyKey = some key) (hgiven : key ≠ "")
    (hstored : db.documents.get c.documentId = some stored)
    (hsame : stored.incarnation = c.after.incarnation) :
    replayReceipt db c.documentId (some key) c.operation c.payloadHash = .ok (some c.after) := by
  have hsome := hinv.keys c hc key stored hkey hstored (generation_eq hsame)
  obtain ⟨receipt, hget⟩ := isSome_iff_exists.mp hsome
  obtain ⟨⟨other, hother, hown⟩, c', hc', hid, hkey', hoperation, hhash, hresult⟩ :=
    hinv.receipts _ _ _ hget
  rw [hstored] at hother
  cases hother
  have hincarnation : c.after.incarnation = c'.after.incarnation := by
    rw [hresult, ← hown, hsame]
  obtain rfl := commit_unique hinv hc hc' hid.symm hincarnation hkey hkey'
  have hlookup : (givenKey (some key)).bind (fun key => db.receipts.get (c.documentId, key)) =
      some receipt := by
    simp [givenKey, Option.filter, hgiven, hget]
  simp [replayReceipt, hlookup, hoperation, hhash, hresult]

/-! ## Tasks -/

/-- The task has the result of a write, its own or one with its key. -/
def Answers (db : Store) (id : String) (key : Option String) (operation payloadHash : String)
    (result : DocumentRecord) (c : Commit) : Prop :=
  c ∈ db.commits ∧ c.documentId = id ∧ c.idempotencyKey = givenKey key ∧
    c.operation = operation ∧ c.payloadHash = payloadHash ∧ c.after = result

def PhaseInv (db : Store) (i : Nat) (id : String) : Phase → Prop
  | .authorizing _ current | .replaying _ current => Known db current ∧ current.id = id
  | .checking w current after | .writing w current after => Ready db id w current after
  | .written w result => ∃ c, Answers db id w.input.idempotencyKey w.options.operation
      w.options.payloadHash result c ∧ c.task = i
  | .replayed key operation payloadHash result => (givenKey key).isSome = true ∧
      ∃ c, Answers db id key operation payloadHash result c
  | _ => True

structure TaskInv (db : Store) (i : Nat) (task : Task) : Prop where
  phase : PhaseInv db i task.documentId task.phase
  once : ∀ c ∈ db.commits, c.task = i → ∃ w result, task.phase = .written w result

variable {i j : Nat} {phase : Phase}

theorem phaseInv_mono (h : Advances i db db') (hphase : PhaseInv db j id phase) :
    PhaseInv db' j id phase := by
  cases phase with
  | authorizing w current | replaying w current => exact ⟨h.known _ hphase.1, hphase.2⟩
  | checking w current after => exact { hphase with known := h.known _ hphase.known }
  | writing w current after => exact { hphase with known := h.known _ hphase.known }
  | written w result =>
    obtain ⟨c, ⟨hc, hanswers⟩, htask⟩ := hphase
    exact ⟨c, ⟨h.commits c hc, hanswers⟩, htask⟩
  | replayed key operation payloadHash result =>
    obtain ⟨hkey, c, hc, hanswers⟩ := hphase
    exact ⟨hkey, c, h.commits c hc, hanswers⟩
  | _ => exact trivial

variable {task : Task}

theorem taskInv_mono (h : Advances i db db') (hne : j ≠ i) (htask : TaskInv db j task) :
    TaskInv db' j task where
  phase := phaseInv_mono h htask.phase
  once c hc hj := by
    rcases h.added c hc with hold | hnew
    · exact htask.once c hold hj
    · exact absurd (hj.symm.trans hnew) hne

theorem loadScoped_ok (h : loadScoped db.documents principal id = .ok document) :
    db.documents.get id = some document := by
  simp only [loadScoped] at h
  split at h
  · cases h
  rename_i found hget
  split at h
  · cases h
    exact hget
  · cases h

theorem loadThen_inv {go : DocumentRecord → Phase} (hinv : DbInv db)
    (hgo : ∀ document, Known db document → document.id = task.documentId →
      PhaseInv db i task.documentId (go document)) :
    PhaseInv db i task.documentId (loadThen db task go) := by
  unfold loadThen
  cases hload : loadScoped db.documents task.principal task.documentId with
  | error error => exact trivial
  | ok document =>
    have hget := loadScoped_ok hload
    exact hgo document (hinv.stored _ _ hget) (hinv.keyed _ _ hget)

variable {granted : Bool}

theorem whenGranted_inv (h : PhaseInv db i id phase) :
    PhaseInv db i id (whenGranted granted phase) := by
  unfold whenGranted
  split
  · exact h
  · exact trivial

variable {key : Option String}

theorem replayReceipt_some {operation payloadHash : String} {result : DocumentRecord}
    (hinv : DbInv db) (h : replayReceipt db id key operation payloadHash = .ok (some result)) :
    (givenKey key).isSome = true ∧ ∃ c, Answers db id key operation payloadHash result c := by
  simp only [replayReceipt] at h
  split at h
  · cases h
  rename_i receipt hfound
  split at h
  · cases h
  rename_i hsame
  cases h
  obtain ⟨given, hgiven, hget⟩ := bind_eq_some_iff.mp hfound
  rw [not_or, not_not, not_not] at hsame
  obtain ⟨-, c, hc, hid, hkey, hoperation, hhash, hresult⟩ := hinv.receipts _ _ _ hget
  exact ⟨by rw [hgiven]; rfl, c, hc, hid, hkey.trans hgiven.symm, hoperation.trans hsame.1,
    hhash.trans hsame.2, hresult⟩

theorem replayThen_inv {operation payloadHash : String} {go : Phase} (hinv : DbInv db)
    (hgo : PhaseInv db i task.documentId go) :
    PhaseInv db i task.documentId (replayThen db task key operation payloadHash go) := by
  unfold replayThen
  split
  · exact trivial
  · rename_i result hreplay
    exact replayReceipt_some hinv hreplay
  · exact hgo

theorem orFail_inv {outcome : Except String Phase}
    (h : ∀ phase, outcome = .ok phase → PhaseInv db i id phase) :
    PhaseInv db i id (orFail outcome) := by
  cases outcome with
  | error error => exact trivial
  | ok phase => exact h phase rfl

theorem readStep_inv {phase' : Phase} (hinv : DbInv db)
    (hphase : PhaseInv db i task.documentId task.phase)
    (hstep : readStep service db task granted task.phase = some phase') :
    PhaseInv db i task.documentId phase' := by
  cases hcase : task.phase with
  | creating input =>
    rw [hcase] at hstep
    cases hstep
    apply whenGranted_inv
    apply orFail_inv
    intro phase hok
    cases hcheck : checkCreate service task.documentId input with
    | error error =>
      rw [hcheck] at hok
      cases hok
    | ok checked =>
      rw [hcheck] at hok
      cases hok
      exact trivial
  | removing | editing edit | restoring input =>
    rw [hcase] at hstep
    cases hstep
    exact loadThen_inv hinv fun _ _ _ => trivial
  | removingAuthorizing current | editingAuthorizing edit current
  | restoringAuthorizing input current =>
    rw [hcase] at hstep
    cases hstep
    exact whenGranted_inv trivial
  | editingReplaying edit current =>
    rw [hcase] at hstep
    cases hstep
    apply replayThen_inv hinv
    apply orFail_inv
    intro phase hok
    cases hedit : mutateEditorial edit current with
    | error error =>
      rw [hedit] at hok
      cases hok
    | ok w =>
      rw [hedit] at hok
      cases hok
      exact trivial
  | restoringReading input current =>
    rw [hcase] at hstep
    simp only [readStep] at hstep
    split at hstep
    · cases hstep
      exact trivial
    · cases hstep
      exact trivial
  | loading w =>
    rw [hcase] at hstep
    cases hstep
    exact loadThen_inv hinv fun _ hknown hid => ⟨hknown, hid⟩
  | authorizing w current =>
    rw [hcase] at hstep hphase
    cases hstep
    exact whenGranted_inv hphase
  | replaying w current =>
    rw [hcase] at hstep hphase
    cases hstep
    apply replayThen_inv hinv
    apply orFail_inv
    intro phase hok
    cases hnext : nextDocument service current w.input w.options with
    | error error =>
      rw [hnext] at hok
      cases hok
    | ok document =>
      rw [hnext] at hok
      cases hok
      obtain ⟨hexpected, hid, hkept, hraised⟩ := nextDocument_ok hnext
      exact ⟨hphase.1, hphase.2, hexpected, ⟨hid, hkept⟩, hraised⟩
  | checking w current document =>
    rw [hcase] at hstep hphase
    cases hstep
    apply replayThen_inv hinv
    split
    · exact hphase
    · exact trivial
  | _ =>
    rw [hcase] at hstep
    cases hstep

/-! ## Runs -/

/-- A transaction commits on the document that its request was authorized for. -/
def onIncarnation (db : Store) (task : Task) : Bool :=
  match task.phase with
  | .writing w current _ => SameIncarnation db task.documentId w current
  | .removingWriting current => (db.documents.get task.documentId).all fun stored =>
      current.incarnation = stored.incarnation
  | _ => true

def allowed (s : System Store Task) : Act DocumentService.Call Bool → Bool
  | .spawn _ => true
  | .move i _ => (s.procs[i]?).all (onIncarnation s.shared)

structure SysInv (s : System Store Task) : Prop where
  db : DbInv s.shared
  tasks : Each TaskInv s
  started : ∀ c ∈ s.shared.commits, c.task < s.procs.length

theorem next_inv {task' : Task} (hinv : DbInv db) (htask : TaskInv db i task)
    (hallowed : onIncarnation db task = true)
    (hnext : next service db i task granted = some (db', task')) :
    DbInv db' ∧ TaskInv db' i task' ∧ Advances i db db' := by
  have hfail : ∀ error, (∀ w result, task.phase ≠ .written w result) →
      TaskInv db i { task with phase := .failed error } := by
    intro error hphase
    refine ⟨trivial, fun c hc hi => ?_⟩
    obtain ⟨w, result, hwritten⟩ := htask.once c hc hi
    exact absurd hwritten (hphase w result)
  unfold DocumentService.next at hnext
  split at hnext
  · rename_i input hphase
    split at hnext
    · rename_i inserted document hinsert
      cases hnext
      obtain ⟨hnew, -⟩ := insert_inv hinv hinsert
      have hcommits : db'.commits = db.commits := by
        obtain ⟨-, -, -, hdb⟩ := insertDocument_ok hinsert
        rw [hdb]
      refine ⟨hnew, ⟨trivial, fun c hc hi => ?_⟩, fun _ h => insert_known hinsert h,
        fun c hc => hcommits ▸ hc, fun c hc => .inl (hcommits ▸ hc)⟩
      obtain ⟨w, result, hwritten⟩ := htask.once c (hcommits ▸ hc) hi
      rw [hphase] at hwritten
      cases hwritten
    · cases hnext
      exact ⟨hinv, hfail _ fun w result h => (by rw [hphase] at h; cases h), advances_refl i db⟩
  · rename_i current hphase
    cases hnext
    have hsame : ∀ stored, db.documents.get task.documentId = some stored →
        current.incarnation = stored.incarnation := by
      intro stored hstored
      simp only [onIncarnation, hphase, hstored, all_some, decide_eq_true_eq] at hallowed
      exact hallowed
    refine ⟨remove_inv hinv hsame, ⟨trivial, fun c hc hi => ?_⟩, fun _ h => remove_known h,
      fun c hc => hc, fun c hc => .inl hc⟩
    obtain ⟨w, result, hwritten⟩ := htask.once c hc hi
    rw [hphase] at hwritten
    cases hwritten
  · rename_i w current document hphase
    have hready : Ready db task.documentId w current document := by
      have hinvariant := htask.phase
      rwa [hphase] at hinvariant
    have hsame : SameIncarnation db task.documentId w current = true := by
      simpa only [onIncarnation, hphase] using hallowed
    split at hnext
    · rename_i committed hcommit
      cases hnext
      obtain ⟨hnew, hmem⟩ := commit_inv hinv hready hsame hcommit
      obtain ⟨before, -, -, -, hdb⟩ := commitUpdate_ok hcommit
      have hcommits : db'.commits =
          commitOf i task.documentId w current before document :: db.commits := by rw [hdb]
      refine ⟨hnew, ⟨⟨_, ⟨hmem, rfl, rfl, rfl, rfl, rfl⟩, rfl⟩, fun c hc hi => ⟨w, document, rfl⟩⟩,
        fun _ h => commit_known hready hsame hcommit h, fun c hc => ?_, fun c hc => ?_⟩
      · rw [hcommits]
        exact mem_cons_of_mem _ hc
      · rw [hcommits] at hc
        rcases mem_cons.mp hc with rfl | hc
        · exact .inr rfl
        · exact .inl hc
    · cases hnext
      exact ⟨hinv, hfail _ fun w result h => (by rw [hphase] at h; cases h), advances_refl i db⟩
  · obtain ⟨phase', hread, heq⟩ := map_eq_some_iff.mp hnext
    cases heq
    have hphase := readStep_inv hinv htask.phase hread
    refine ⟨hinv, ⟨hphase, fun c hc hi => ?_⟩, advances_refl i db⟩
    obtain ⟨w, result, hwritten⟩ := htask.once c hc hi
    rw [hwritten] at hread
    cases hread

theorem step_inv {s s' : System Store Task} {act : Act DocumentService.Call Bool} (h : SysInv s)
    (hallowed : allowed s act = true) (hstep : step service s act = some s') : SysInv s' := by
  rcases act_cases hstep with ⟨call, rfl, rfl⟩ | ⟨i, granted, task, db', task', rfl, hi, hnext, rfl⟩
  · refine ⟨h.db, each_spawn h.tasks ⟨?_, ?_⟩, ?_⟩
    · cases hrequest : call.request <;> simp only [startTask, hrequest] <;> exact trivial
    · intro c hc hlast
      have := h.started c hc
      omega
    · intro c hc
      have := h.started c hc
      simp only [length_append, length_singleton]
      omega
  · simp only [allowed, hi, Option.all_some] at hallowed
    obtain ⟨hdb, htask, hadvances⟩ := next_inv h.db (h.tasks i task hi) hallowed hnext
    refine ⟨hdb, ?_, ?_⟩
    · apply each_move
      · exact htask
      · intro j other hne hj
        exact taskInv_mono hadvances hne (h.tasks j other hj)
    · intro c hc
      rw [length_set]
      rcases hadvances.added c hc with hold | hnew
      · exact h.started c hold
      · rw [hnew]
        exact (List.getElem?_eq_some_iff.mp hi).1

/-- No write is lost or misplaced. -/
structure Sound (s : System Store Task) : Prop where
  inPlace : ∀ c ∈ s.shared.commits, InPlace c
  apart : s.shared.commits.Pairwise Apart
  history : ∀ id n, (s.shared.versions.get (id, n)).isSome = true ↔
    ∃ document, s.shared.documents.get id = some document ∧ 1 ≤ n ∧ n ≤ document.version
  own : ∀ id n row document, s.shared.versions.get (id, n) = some row →
    s.shared.documents.get id = some document → row.document.incarnation = document.incarnation
  latest : ∀ id document, s.shared.documents.get id = some document →
    ∃ row, s.shared.versions.get (id, document.version) = some row ∧ row.document = document
  written : ∀ (i : Nat) task w result, s.procs[i]? = some task → task.phase = .written w result →
    ∃ c, Answers s.shared task.documentId w.input.idempotencyKey w.options.operation
      w.options.payloadHash result c ∧ c.task = i
  replayed : ∀ (i : Nat) task key operation payloadHash result, s.procs[i]? = some task →
    task.phase = .replayed key operation payloadHash result →
    (∃ c, Answers s.shared task.documentId key operation payloadHash result c) ∧
      ∀ c ∈ s.shared.commits, c.task ≠ i
  repeated : ∀ c ∈ s.shared.commits, ∀ key stored, c.idempotencyKey = some key → key ≠ "" →
    s.shared.documents.get c.documentId = some stored →
    stored.incarnation = c.after.incarnation →
    replayReceipt s.shared c.documentId (some key) c.operation c.payloadHash = .ok (some c.after)
  removals : ∀ r ∈ s.shared.removals, r.authorized.incarnation = r.removed.incarnation

theorem sound_of_inv {s : System Store Task} (h : SysInv s) : Sound s where
  inPlace := h.db.inPlace
  apart := h.db.apart
  history := h.db.history
  own := h.db.own
  latest := h.db.latest
  written i task w result hi hphase := by
    have hinvariant := (h.tasks i task hi).phase
    rwa [hphase] at hinvariant
  replayed i task key operation payloadHash result hi hphase := by
    have htask := h.tasks i task hi
    have hinvariant := htask.phase
    rw [hphase] at hinvariant
    refine ⟨hinvariant.2, fun c hc hown => ?_⟩
    obtain ⟨w, other, hwritten⟩ := htask.once c hc hown
    rw [hphase] at hwritten
    cases hwritten
  repeated c hc key stored hkey hgiven hstored hsame :=
    replay_found h.db hc hkey hgiven hstored hsame
  removals := h.db.removals

def noRequests : System Store Task := ⟨Store.empty, []⟩

/-- In every run whose transactions commit on the documents that their requests were authorized
for, no write is lost or misplaced. -/
theorem writes_in_place {acts : List (Act DocumentService.Call Bool)} {s : System Store Task}
    (hallowed : Guarded (step service) (fun s act => allowed s act = true) noRequests acts)
    (hrun : run (step service) noRequests acts = some s) : Sound s := by
  have hstart : SysInv noRequests := ⟨empty_inv, each_nil TaskInv Store.empty, forall_mem_nil _⟩
  have hinv : SysInv s := guarded_run_invariant (step service)
    (fun s act s' h hguard hstep => step_inv h hguard hstep) hstart hallowed hrun
  exact sound_of_inv hinv

/-! ## Runs on one document -/

def plainService : Service where
  schemaHash := "schema"
  hashString text := toString text.length
  parses _ _ := true
  titleFits _ := true
  mapSidecar sidecar _ _ := sidecar
  hashUpdate input := toString input.expectedVersion
  hashRestore input := toString input.version

def plainCall (principal : String) (request : Request) : Act DocumentService.Call Bool :=
  .spawn ⟨⟨principal, none⟩, "d", request⟩

def plainCreate (markdown : Lib.Utf16.Text) : Request := .create ⟨none, markdown, none⟩

def plainUpdate (expectedVersion : Nat) (key : Option String) : Request :=
  .update ⟨expectedVersion, some [98], none, none, none, key⟩

/-- The request makes its next moves, authorized where it asks. -/
def moves (i n : Nat) : List (Act DocumentService.Call Bool) := List.replicate n (.move i true)

/-- Two writes name the first version; one is repeated, the first version is restored, and the
document is deleted. -/
def written : List (Act DocumentService.Call Bool) :=
  [plainCall "alice" (plainCreate [97])] ++ moves 0 2 ++
  [plainCall "alice" (plainUpdate 1 (some "k")), plainCall "alice" (plainUpdate 1 none)] ++
  moves 1 4 ++ moves 2 4 ++ moves 1 1 ++ moves 2 1 ++
  [plainCall "alice" (plainUpdate 1 (some "k"))] ++ moves 3 3 ++
  [plainCall "alice" (.restoreVersion ⟨1, 2, none⟩)] ++ moves 4 8 ++
  [plainCall "alice" .delete] ++ moves 5 3

theorem written_sound : ∃ s, run (step plainService) noRequests written = some s ∧
    s.shared.commits.length = 2 ∧ Sound s := by
  have hends : (run (step plainService) noRequests written).any
      (fun s => decide (s.shared.commits.length = 2)) = true := by decide +kernel
  obtain ⟨s, hrun, hlength⟩ := (any_eq_true _ _).mp hends
  have hallowed : Guarded (step plainService) (fun s act => allowed s act = true) noRequests
      written := by decide +kernel
  exact ⟨s, hrun, of_decide_eq_true hlength, writes_in_place hallowed hrun⟩

/-- Before an update of alice's document commits, she deletes the document and bob creates one
under its id. -/
def taken : List (Act DocumentService.Call Bool) :=
  [plainCall "alice" (plainCreate [97]), plainCall "alice" (plainUpdate 1 none),
    plainCall "alice" .delete, plainCall "bob" (plainCreate [99])] ++
  moves 0 2 ++ moves 1 4 ++ moves 2 3 ++ moves 3 2 ++ moves 1 1

theorem taken_not_sound : ¬∀ s, run (step plainService) noRequests taken = some s → Sound s := by
  intro hclaim
  have hends : (run (step plainService) noRequests taken).any (fun s => s.shared.commits.any
      fun c => decide (c.after.incarnation ≠ c.before.incarnation)) = true := by decide +kernel
  obtain ⟨s, hrun, hs⟩ := (any_eq_true _ _).mp hends
  obtain ⟨c, hc, hmoved⟩ := any_eq_true.mp hs
  exact of_decide_eq_true hmoved ((hclaim s hrun).inPlace c hc).kept

end SuperFunctions.Mdfn.DocumentWrites
