import SuperFunctions.Mdfn.CollaborationLog

/-!
# The collaboration log is complete

A reader that has followed the cursors to the end has received every update that was there when it
started, while writers append and compact. The keys of an incarnation increase in the order of the
commits if no key that a compaction has set free is taken again by a transaction that read before.
-/
namespace SuperFunctions.Mdfn.CollaborationLogComplete

open CollaborationLog Lib.FixedWidth Lib.Keyset Lib.OrderedMap Lib.Processes Lib.Transition
open DocumentService (DocumentRecord Principal loadScoped)
open List

/-! ## Keys -/

variable {key : Key}

theorem keySequence_cases {n : Nat} (h : keySequence key = some n) :
    ∃ rest, key = 'v' :: '2' :: ':' :: rest ∧ digits 20 rest = some (n, []) := by
  obtain ⟨rest, hprefix, hdigits⟩ := Option.bind_eq_some_iff.mp h
  obtain ⟨colon, hcolon, hrest⟩ := Option.bind_eq_some_iff.mp hprefix
  obtain ⟨two, htwo, hdigit⟩ := Option.bind_eq_some_iff.mp hcolon
  obtain ⟨⟨value, tail⟩, hvalue, htail⟩ := Option.bind_eq_some_iff.mp hdigits
  refine ⟨rest, ?_, ?_⟩
  · rw [literal_cases htwo, literal_cases hdigit, literal_cases hrest]
  dsimp only at htail
  split at htail
  · rename_i hnil
    rw [hvalue, hnil, Option.some.inj htail]
  · cases htail

theorem keySequence_encodeKey {n : Nat} (h : n < 10 ^ 20) : keySequence (encodeKey n) = some n := by
  have hdigits := digits_fixedDigits h []
  rw [append_nil] at hdigits
  simp [keySequence, encodeKey, literal, hdigits]

theorem key_lt_iff {a b : Key} {m n : Nat} (ha : keySequence a = some m)
    (hb : keySequence b = some n) : a < b ↔ m < n := by
  obtain ⟨restA, rfl, hdigitsA⟩ := keySequence_cases ha
  obtain ⟨restB, rfl, hdigitsB⟩ := keySequence_cases hb
  have hdigits := digits_lt_iff hdigitsA hdigitsB
  simp only [cons_lt_cons_iff, lt_irrefl, true_and, false_or, hdigits, and_false, or_false]

theorem key_eq_iff {a b : Key} {m n : Nat} (ha : keySequence a = some m)
    (hb : keySequence b = some n) : a = b ↔ m = n := by
  constructor
  · intro heq
    rw [heq, hb] at ha
    exact (Option.some.inj ha).symm
  intro heq
  apply le_antisymm
  · exact not_lt.mp fun hlt => by
      have := (key_lt_iff hb ha).mp hlt
      omega
  · exact not_lt.mp fun hlt => by
      have := (key_lt_iff ha hb).mp hlt
      omega

theorem collaborationCursorKey_ok {previous : Option Key}
    (h : collaborationCursorKey previous = .ok key) :
    keySequence key = some ((previous.bind keySequence).getD 0 + 1) := by
  simp only [collaborationCursorKey] at h
  split at h
  · cases h
  split at h
  · cases h
  · rename_i hbound
    cases h
    exact keySequence_encodeKey (Nat.lt_of_not_le hbound)

/-! ## Pages -/

theorem takeBytes_front (batchBytes encodedBytes : Nat) (rows : List Row) :
    takeBytes batchBytes encodedBytes rows <+: rows := by
  induction rows generalizing encodedBytes with
  | nil => exact nil_prefix
  | cons row rows ih =>
    unfold takeBytes
    split
    · exact nil_prefix
    · exact prefix_cons_inj row |>.mpr (ih _)

theorem includedRows_front (batchBytes : Nat) (rows : List Row) :
    includedRows batchBytes rows <+: rows := by
  cases rows with
  | nil => exact nil_prefix
  | cons row rows => exact prefix_cons_inj row |>.mpr (takeBytes_front _ _ _)

theorem includedRows_ne_nil {batchBytes : Nat} {rows : List Row} (h : rows ≠ []) :
    includedRows batchBytes rows ≠ [] := by
  cases rows with
  | nil => exact absurd rfl h
  | cons row rows =>
    exact nofun

variable {row : Row}

section Page

variable (limits : Limits) (db : Store) (documentId : String) (generation : Nat)
  (cursor : Option Key) (limit : Nat)

variable {db documentId generation cursor} in
theorem mem_rowsFrom : row ∈ rowsFrom db documentId generation cursor ↔
    row ∈ db.rows ∧ row.isOf documentId generation = true ∧ ∀ k ∈ cursor, k < row.cursorKey := by
  rw [rowsFrom, mem_sortByKey, mem_rowsAfter, mem_filter, and_assoc]

theorem batch_rows_eq : ∃ k, (collaborationBatch limits db documentId generation cursor limit).rows =
    (rowsFrom db documentId generation cursor).take k := by
  have hprefix := (includedRows_front limits.batchBytes
    (((rowsFrom db documentId generation cursor).take (min limits.batchUpdates limit + 1)).take
      (min limits.batchUpdates limit))).trans
        (List.IsPrefix.trans ( take_prefix _ _) ( take_prefix _ _))
  exact ⟨_, prefix_iff_eq_take.mp hprefix⟩

variable {limits db documentId generation cursor limit} in
theorem mem_batch_rows
    (h : row ∈ (collaborationBatch limits db documentId generation cursor limit).rows) :
    row ∈ db.rows ∧ row.isOf documentId generation = true := by
  obtain ⟨k, hrows⟩ := batch_rows_eq limits db documentId generation cursor limit
  rw [hrows] at h
  obtain ⟨hmem, hown, -⟩ := mem_rowsFrom.mp (mem_of_mem_take h)
  exact ⟨hmem, hown⟩

variable {limits db documentId generation cursor limit} in
theorem batch_or_after
    (hkeys : ((db.rows.filter (Row.isOf documentId generation)).map Row.cursorKey).Nodup)
    (hlimit : 1 ≤ limit) (hrow : row ∈ rowsFrom db documentId generation cursor) :
    row ∈ (collaborationBatch limits db documentId generation cursor limit).rows ∨
      ∃ key, (collaborationBatch limits db documentId generation cursor limit).nextCursor =
        some key ∧ key < row.cursorKey := by
  have hsorted : Increasing Row.cursorKey (rowsFrom db documentId generation cursor) := by
    apply increasing_sortByKey
    cases cursor with
    | none => exact hkeys
    | some k => exact hkeys.sublist (filter_sublist.map Row.cursorKey)
  obtain ⟨k, hrows⟩ := batch_rows_eq limits db documentId generation cursor limit
  have hpositive : 1 ≤ min limits.batchUpdates limit := by
    have := limits.batchUpdates_pos
    omega
  by_cases hmore : (collaborationBatch limits db documentId generation cursor limit).rows.length <
      ((rowsFrom db documentId generation cursor).take (min limits.batchUpdates limit + 1)).length
  · -- the first row is in the batch, so that there is a last one
    have hsome : rowsFrom db documentId generation cursor ≠ [] := by
      intro hnil
      rw [hnil] at hrow
      cases hrow
    have hincluded : (collaborationBatch limits db documentId generation cursor limit).rows ≠ [] := by
      apply includedRows_ne_nil
      intro hnil
      rw [take_take, take_eq_nil_iff] at hnil
      rcases hnil with hzero | hnil
      · omega
      · exact hsome hnil
    obtain ⟨last, hlast⟩ : ∃ last,
        (collaborationBatch limits db documentId generation cursor limit).rows.getLast? =
          some last := ⟨_, getLast?_eq_some_getLast hincluded⟩
    have hcursor : (collaborationBatch limits db documentId generation cursor limit).nextCursor =
        some last.cursorKey := by
      have hnext : (collaborationBatch limits db documentId generation cursor limit).nextCursor =
          (collaborationBatch limits db documentId generation cursor limit).rows.getLast?.map
            (·.cursorKey) := if_pos hmore
      rw [hnext, hlast]
      rfl
    rw [hrows] at hlast ⊢
    rcases mem_page_or_after Row.cursorKey hsorted hlast hrow with hpage | hafter
    · exact .inl hpage
    · exact .inr ⟨_, hcursor, hafter⟩
  · -- without a further row the batch has all of them
    refine .inl ?_
    have hfew : (collaborationBatch limits db documentId generation cursor limit).rows.length ≤
        min limits.batchUpdates limit :=
      (includedRows_front _ _).length_le.trans (length_take_le _ _)
    rw [hrows] at hmore hfew ⊢
    simp only [length_take] at hmore hfew
    have hall : (rowsFrom db documentId generation cursor).length ≤ k := by omega
    rwa [take_of_length_le hall]

end Page

/-! ## The invariant of the log -/

def Same (a b : Row) : Prop :=
  a.documentId = b.documentId ∧ a.documentGeneration = b.documentGeneration

/-- The document is there, in that incarnation. -/
def Current (db : Store) (documentId : String) (generation : Nat) : Prop :=
  ∃ document, db.documents.get documentId = some document ∧
    document.collaborationGeneration = generation

/-- The sequence number was given to a row of the incarnation. -/
def Used (db : Store) (documentId : String) (generation n : Nat) : Prop :=
  ∃ row ∈ db.log, row.isOf documentId generation = true ∧ keySequence row.cursorKey = some n

structure DbInv (db : Store) : Prop where
  sublist : db.rows.Sublist db.log
  ids : (db.log.map Row.id).Nodup
  issued : ∀ row ∈ db.log, row.id < db.ids
  numbered : ∀ row ∈ db.log, ∃ n, keySequence row.cursorKey = some n
  dense : ∀ documentId generation n, Used db documentId generation n →
    ∀ m, 1 ≤ m → m ≤ n → Used db documentId generation m
  increasing : db.log.Pairwise fun later earlier =>
    Same later earlier → earlier.cursorKey < later.cursorKey
  generations : ∀ row ∈ db.log, row.documentGeneration < db.generations
  documents : ∀ id document, db.documents.get id = some document →
    document.collaborationGeneration < db.generations
  kept : ∀ documentId generation, Current db documentId generation →
    ∀ row ∈ db.log, row.isOf documentId generation = true → ∀ part ∈ row.update.parts,
      ∃ stored ∈ db.rows, stored.isOf documentId generation = true ∧ part ∈ stored.update.parts
  deletions : ∀ d ∈ db.deletions, d.row.isOf d.documentId d.generation = true

variable {documentId : String} {generation : Nat}

theorem isOf_iff :
    row.isOf documentId generation = true ↔
      row.documentId = documentId ∧ row.documentGeneration = generation := by
  simp [Row.isOf]

theorem same_of_isOf {a b : Row} (ha : a.isOf documentId generation = true)
    (hb : b.isOf documentId generation = true) : Same a b := by
  obtain ⟨hida, hgena⟩ := isOf_iff.mp ha
  obtain ⟨hidb, hgenb⟩ := isOf_iff.mp hb
  exact ⟨hida.trans hidb.symm, hgena.trans hgenb.symm⟩

theorem empty_inv : DbInv Store.empty where
  sublist := List.Sublist.refl _
  ids := nodup_nil
  issued := forall_mem_nil _
  numbered := forall_mem_nil _
  dense _ _ _ h := by
    obtain ⟨row, hmem, -⟩ := h
    cases hmem
  increasing := List.Pairwise.nil
  generations := forall_mem_nil _
  documents _ _ h := by cases h
  kept _ _ _ := forall_mem_nil _
  deletions := forall_mem_nil _

variable {db db' : Store}

theorem keys_nodup (hinv : DbInv db) (documentId : String) (generation : Nat) :
    ((db.rows.filter (Row.isOf documentId generation)).map Row.cursorKey).Nodup := by
  have hrows := hinv.increasing.sublist hinv.sublist
  have hfiltered : (db.rows.filter (Row.isOf documentId generation)).Pairwise
      fun later earlier => Same later earlier → earlier.cursorKey < later.cursorKey :=
    hrows.sublist filter_sublist
  apply pairwise_map.mpr
  apply hfiltered.imp_of_mem
  intro a b ha hb hlt heq
  have hsame := same_of_isOf (mem_filter.mp ha).2 (mem_filter.mp hb).2
  exact absurd (hlt hsame) (by rw [heq]; exact lt_irrefl _)

theorem row_unique (hinv : DbInv db) {a b : Row} (ha : a ∈ db.log) (hb : b ∈ db.log)
    (hid : a.id = b.id) : a = b :=
  inj_on_of_nodup_map hinv.ids ha hb hid

/-! ## What a transaction leaves to the others -/

/-- Every stored row is still there or merged in one with a later key, a row that is new has a new
id, and no incarnation comes back. -/
structure Advances (db db' : Store) : Prop where
  generations : db.generations ≤ db'.generations
  log : ∀ row ∈ db.log, row ∈ db'.log
  documents : ∀ id document, db'.documents.get id = some document →
    document.collaborationGeneration < db.generations → db.documents.get id = some document
  fresh : ∀ row ∈ db'.rows, row ∈ db.rows ∨ ∀ old ∈ db.log, old.id ≠ row.id
  merged : ∀ documentId generation, Current db' documentId generation →
    ∀ row ∈ db.rows, row.isOf documentId generation = true → ∀ part ∈ row.update.parts,
      ∃ stored ∈ db'.rows, stored.isOf documentId generation = true ∧
        row.cursorKey ≤ stored.cursorKey ∧ part ∈ stored.update.parts

theorem advances_refl (db : Store) : Advances db db where
  generations := le_rfl
  log _ h := h
  documents _ _ h _ := h
  fresh _ h := .inl h
  merged _ _ _ row hrow hown _ hpart := ⟨row, hrow, hown, le_refl _, hpart⟩

theorem current_back (h : Advances db db') (hold : generation < db.generations)
    (hcurrent : Current db' documentId generation) : Current db documentId generation := by
  obtain ⟨document, hget, rfl⟩ := hcurrent
  exact ⟨document, h.documents documentId document hget hold, rfl⟩

variable {part : Nat}

theorem kept_advances (hinv : DbInv db) (h : Advances db db')
    (hcurrent : Current db' documentId generation) (hrow : row ∈ db.log)
    (hown : row.isOf documentId generation = true) (hpart : part ∈ row.update.parts) :
    ∃ stored ∈ db'.rows, stored.isOf documentId generation = true ∧ part ∈ stored.update.parts := by
  have hold : generation < db.generations := by
    rw [← (isOf_iff.mp hown).2]
    exact hinv.generations row hrow
  obtain ⟨stored, hstored, hstoredOwn, hstoredPart⟩ :=
    hinv.kept documentId generation (current_back h hold hcurrent) row hrow hown part hpart
  obtain ⟨final, hfinal, hfinalOwn, -, hfinalPart⟩ :=
    h.merged documentId generation hcurrent stored hstored hstoredOwn part hstoredPart
  exact ⟨final, hfinal, hfinalOwn, hfinalPart⟩

/-! ## Documents come and go -/

section Documents

variable {principal : Principal} {id : String}

theorem insert_advances : Advances db (insertDocument db principal id) where
  generations := Nat.le_succ _
  log _ h := h
  documents k document hget hold := by
    simp only [insertDocument, OMap.get_set] at hget
    split at hget
    · cases hget
      exact absurd hold (Nat.lt_irrefl _)
    · exact hget
  fresh _ h := .inl h
  merged _ _ _ row hrow hown _ hpart := ⟨row, hrow, hown, le_refl _, hpart⟩

theorem insert_inv (hinv : DbInv db) : DbInv (insertDocument db principal id) := { hinv with
  generations row hrow := Nat.lt_succ_of_lt (hinv.generations row hrow)
  documents k document hget := by
    simp only [insertDocument, OMap.get_set] at hget
    split at hget
    · cases hget
      exact Nat.lt_succ_self _
    · exact Nat.lt_succ_of_lt (hinv.documents k document hget)
  kept _ _ hcurrent _ hrow hown _ hpart :=
    kept_advances hinv insert_advances hcurrent hrow hown hpart }

theorem remove_advances : Advances db (removeDocument db id) where
  generations := le_rfl
  log _ h := h
  documents k document hget _ := by
    simp only [removeDocument, OMap.get_delete] at hget
    split at hget
    · cases hget
    · exact hget
  fresh row hrow := .inl (mem_filter.mp hrow).1
  merged documentId generation hcurrent row hrow hown _ hpart := by
    refine ⟨row, mem_filter.mpr ⟨hrow, ?_⟩, hown, le_refl _, hpart⟩
    obtain ⟨document, hget, -⟩ := hcurrent
    simp only [removeDocument, OMap.get_delete] at hget
    rw [decide_eq_true_eq, (isOf_iff.mp hown).1]
    intro heq
    rw [if_pos heq] at hget
    cases hget

theorem remove_inv (hinv : DbInv db) : DbInv (removeDocument db id) := { hinv with
  sublist := filter_sublist.trans hinv.sublist
  documents k document hget := by
    simp only [removeDocument, OMap.get_delete] at hget
    split at hget
    · cases hget
    · exact hinv.documents k document hget
  kept _ _ hcurrent _ hrow hown _ hpart :=
    kept_advances hinv remove_advances hcurrent hrow hown hpart }

end Documents

/-! ## Writers clean up -/

section Clean

variable {documentId : String} {generation : Nat} {p : Row → Bool}

theorem mem_deleteRows :
    row ∈ (deleteRows db documentId generation p).rows ↔
      row ∈ db.rows ∧ ¬(row.isOf documentId generation = true ∧ p row = true) := by
  rw [← Bool.and_eq_true, Bool.not_eq_true, ← Bool.not_eq_true']
  exact mem_filter

theorem deleteRows_deletions (hinv : DbInv db) :
    ∀ d ∈ (deleteRows db documentId generation p).deletions,
      d.row.isOf d.documentId d.generation = true := by
  intro d hd
  rcases mem_append.mp hd with hnew | hold
  · obtain ⟨row, hrow, rfl⟩ := mem_map.mp hnew
    exact (Bool.and_eq_true _ _ ▸ (mem_filter.mp hrow).2).1
  · exact hinv.deletions d hold

theorem clean_advances (hgone : ¬Current db documentId generation) :
    Advances db (deleteRows db documentId generation fun _ => true) where
  generations := le_rfl
  log _ h := h
  documents _ _ hget _ := hget
  fresh row hrow := .inl (mem_deleteRows.mp hrow).1
  merged k g hcurrent row hrow hown _ hpart := by
    refine ⟨row, mem_deleteRows.mpr ⟨hrow, ?_⟩, hown, le_refl _, hpart⟩
    rintro ⟨hsame, -⟩
    obtain ⟨hid, hgeneration⟩ := isOf_iff.mp hown
    obtain ⟨hid', hgeneration'⟩ := isOf_iff.mp hsame
    apply hgone
    rwa [← hid', ← hgeneration', hid, hgeneration]

theorem clean_inv (hinv : DbInv db) (hgone : ¬Current db documentId generation) :
    DbInv (deleteRows db documentId generation fun _ => true) := { hinv with
  sublist := filter_sublist.trans hinv.sublist
  kept _ _ hcurrent _ hrow hown _ hpart :=
    kept_advances hinv (clean_advances hgone) hcurrent hrow hown hpart
  deletions := deleteRows_deletions hinv }

end Clean

/-! ## Writers commit -/

/-- The appended updates that a snapshot stands for. -/
def snapshotParts : Write → List Nat
  | .append _ => []
  | .compact snapshot _ => snapshot.parts

/-- The snapshot contains every update that the compaction names. -/
def Merges (log : List Row) (write : Write) : Prop :=
  ∀ id ∈ write.deletes, ∃ row ∈ log, row.id = id ∧ ∀ part ∈ row.update.parts,
    part ∈ snapshotParts write

/-- The key is the next one after some that were used, and after those of the rows to delete. -/
structure Fits (db : Store) (documentId : String) (generation : Nat) (write : Write) (key : Key) :
    Prop where
  next : ∃ n, keySequence key = some n ∧ 1 ≤ n ∧
    ∀ m, 1 ≤ m → m < n → Used db documentId generation m
  after : ∀ row ∈ db.rows, row.isOf documentId generation = true → row.id ∈ write.deletes →
    row.cursorKey < key

section Commit

variable {principal : Principal} {documentId : String} {generation : Nat} {write : Write}
  {key : Key}

/-- The row of a write. -/
def writtenRow (db : Store) (principal : Principal) (documentId : String) (generation : Nat)
    (write : Write) (key : Key) : Row :=
  ⟨db.ids, documentId, generation, principal.id, write.update db.ids, key⟩

theorem writtenRow_isOf :
    (writtenRow db principal documentId generation write key).isOf documentId generation = true :=
  isOf_iff.mpr ⟨rfl, rfl⟩

theorem mem_commit_rows :
    row ∈ (commitWrite db principal documentId generation write key).rows ↔
      row = writtenRow db principal documentId generation write key ∨
      row ∈ db.rows ∧ ¬(row.isOf documentId generation = true ∧ row.id ∈ write.deletes) := by
  simp only [commitWrite, insertRow, mem_cons, mem_deleteRows, contains_iff_mem]
  rfl

theorem deleted_merged (hinv : DbInv db) (hmerges : Merges db.log write) (hrow : row ∈ db.rows)
    (hdeleted : row.id ∈ write.deletes) (hpart : part ∈ row.update.parts) :
    part ∈ (writtenRow db principal documentId generation write key).update.parts := by
  obtain ⟨named, hnamed, hid, hparts⟩ := hmerges row.id hdeleted
  have hsame := row_unique hinv hnamed (hinv.sublist.subset hrow) hid
  rw [hsame] at hparts
  cases write with
  | append bytes => cases hdeleted
  | compact snapshot ids => exact hparts part hpart

theorem commit_advances (hinv : DbInv db) (hmerges : Merges db.log write)
    (hfits : Fits db documentId generation write key) :
    Advances db (commitWrite db principal documentId generation write key) where
  generations := le_rfl
  log _ h := mem_cons_of_mem _ h
  documents _ _ hget _ := hget
  fresh row hrow := by
    rcases mem_commit_rows.mp hrow with rfl | ⟨hold, -⟩
    · refine .inr fun old hold heq => ?_
      have hlt := hinv.issued old hold
      rw [heq] at hlt
      exact Nat.lt_irrefl _ hlt
    · exact .inl hold
  merged k g _ row hrow hown part hpart := by
    by_cases hdeleted : row.isOf documentId generation = true ∧ row.id ∈ write.deletes
    · obtain ⟨hsame, hnamed⟩ := hdeleted
      obtain ⟨hid, hgeneration⟩ := isOf_iff.mp hown
      obtain ⟨hid', hgeneration'⟩ := isOf_iff.mp hsame
      refine ⟨_, mem_commit_rows.mpr (.inl rfl), ?_,
        le_of_lt (hfits.after row hrow hsame hnamed),
        deleted_merged hinv hmerges hrow hnamed hpart⟩
      rw [← hid, ← hgeneration, hid', hgeneration']
      exact writtenRow_isOf
    · exact ⟨row, mem_commit_rows.mpr (.inr ⟨hrow, hdeleted⟩), hown, le_refl _, hpart⟩

theorem used_commit {k : String} {g n : Nat} (h : Used db k g n) :
    Used (commitWrite db principal documentId generation write key) k g n := by
  obtain ⟨row, hrow, hused⟩ := h
  exact ⟨row, mem_cons_of_mem _ hrow, hused⟩

theorem key_after (hinv : DbInv db) (hfits : Fits db documentId generation write key)
    (hfree : keyTaken db.log documentId generation key = false) (hrow : row ∈ db.log)
    (hown : row.isOf documentId generation = true) : row.cursorKey < key := by
  obtain ⟨n, hn, hpositive, -⟩ := hfits.next
  obtain ⟨m, hm⟩ := hinv.numbered row hrow
  rw [key_lt_iff hm hn]
  by_contra hnot
  obtain ⟨other, hother, hotherOwn, hsequence⟩ :=
    hinv.dense documentId generation m ⟨row, hrow, hown, hm⟩ n hpositive (Nat.le_of_not_lt hnot)
  have hkey : other.cursorKey = key := (key_eq_iff hsequence hn).mpr rfl
  have htaken : keyTaken db.log documentId generation key = true :=
    any_eq_true.mpr ⟨other, hother, by simp [hotherOwn, hkey]⟩
  rw [hfree] at htaken
  cases htaken

theorem commit_inv (hinv : DbInv db) (hmerges : Merges db.log write)
    (hfits : Fits db documentId generation write key) (hold : generation < db.generations)
    (hfree : keyTaken db.log documentId generation key = false) :
    DbInv (commitWrite db principal documentId generation write key) := by
  obtain ⟨n, hn, hpositive, hused⟩ := hfits.next
  constructor
  · exact List.Sublist.cons_cons _ (filter_sublist.trans hinv.sublist)
  · refine nodup_cons.mpr ⟨fun hmem => ?_, hinv.ids⟩
    obtain ⟨row, hrow, hid⟩ := mem_map.mp hmem
    have hlt := hinv.issued row hrow
    rw [hid] at hlt
    exact Nat.lt_irrefl _ hlt
  · intro row hrow
    rcases mem_cons.mp hrow with rfl | hrow
    · exact Nat.lt_succ_self _
    · exact Nat.lt_succ_of_lt (hinv.issued row hrow)
  · intro row hrow
    rcases mem_cons.mp hrow with rfl | hrow
    · exact ⟨n, hn⟩
    · exact hinv.numbered row hrow
  · rintro k g l ⟨row, hrow, hown, hl⟩ m hlow hhigh
    rcases mem_cons.mp hrow with rfl | hrow
    · obtain ⟨hid, hgeneration⟩ := isOf_iff.mp hown
      have hk : documentId = k := hid
      have hg : generation = g := hgeneration
      have hln : l = n := Option.some.inj (hl.symm.trans hn)
      subst hk hg hln
      by_cases hm : m = l
      · exact ⟨_, mem_cons_self, writtenRow_isOf, by rw [hm]; exact hn⟩
      · exact used_commit (hused m hlow (by omega))
    · exact used_commit (hinv.dense k g l ⟨row, hrow, hown, hl⟩ m hlow hhigh)
  · refine pairwise_cons.mpr ⟨fun row hrow hsame => ?_, hinv.increasing⟩
    exact key_after hinv hfits hfree hrow (isOf_iff.mpr ⟨hsame.1.symm, hsame.2.symm⟩)
  · intro row hrow
    rcases mem_cons.mp hrow with rfl | hrow
    · exact hold
    · exact hinv.generations row hrow
  · exact hinv.documents
  · intro k g hcurrent row hrow hown part hpart
    rcases mem_cons.mp hrow with rfl | hrow
    · exact ⟨_, mem_commit_rows.mpr (.inl rfl), hown, hpart⟩
    · exact kept_advances hinv (commit_advances hinv hmerges hfits) hcurrent hrow hown hpart
  · exact deleteRows_deletions hinv

end Commit

/-! ## Keys are allocated -/

theorem latestKey_spec (hinv : DbInv db) (documentId : String) (generation : Nat) :
    (∀ row ∈ db.rows, row.isOf documentId generation = true →
      ∃ key, latestKey db documentId generation = some key ∧ row.cursorKey ≤ key) ∧
    (∀ key, latestKey db documentId generation = some key →
      ∃ row ∈ db.rows, row.isOf documentId generation = true ∧ row.cursorKey = key) := by
  constructor
  · intro row hrow hown
    have hmem : row ∈ sortByKey Row.cursorKey (db.rows.filter (Row.isOf documentId generation)) :=
      (mem_sortByKey _).mpr (mem_filter.mpr ⟨hrow, hown⟩)
    obtain ⟨last, hlast⟩ := Option.isSome_iff_exists.mp (getLast?_isSome.mpr (ne_nil_of_mem hmem))
    have hsorted := increasing_sortByKey _ (keys_nodup hinv documentId generation)
    exact ⟨last.cursorKey, by rw [latestKey, hlast]; rfl, key_le_getLast _ hsorted hlast hmem⟩
  · intro key hlatest
    obtain ⟨last, hlast, hkey⟩ := Option.map_eq_some_iff.mp hlatest
    obtain ⟨hmem, hown⟩ := mem_filter.mp ((mem_sortByKey _).mp (mem_of_getLast? hlast))
    exact ⟨last, hmem, hown, hkey⟩

theorem allocated_fits (hinv : DbInv db) {write : Write}
    (h : collaborationCursorKey (latestKey db documentId generation) = .ok key) :
    Fits db documentId generation write key := by
  obtain ⟨hgreatest, hstored⟩ := latestKey_spec hinv documentId generation
  have hkey := collaborationCursorKey_ok h
  cases hlatest : latestKey db documentId generation with
  | none =>
    rw [hlatest] at hkey
    refine ⟨⟨1, hkey, le_rfl, fun m hlow hhigh => by omega⟩, ?_⟩
    intro row hrow hown
    obtain ⟨_, hfalse, -⟩ := hgreatest row hrow hown
    rw [hlatest] at hfalse
    cases hfalse
  | some latest =>
    obtain ⟨row, hrow, hown, hrowKey⟩ := hstored latest hlatest
    have hlog := hinv.sublist.subset hrow
    obtain ⟨n, hn⟩ := hinv.numbered row hlog
    have hlatestSequence : keySequence latest = some n := by rw [← hrowKey]; exact hn
    rw [hlatest, Option.bind_some, hlatestSequence] at hkey
    refine ⟨⟨n + 1, hkey, Nat.succ_pos _, fun m hlow hhigh =>
      hinv.dense documentId generation n ⟨row, hlog, hown, hn⟩ m hlow (by omega)⟩, ?_⟩
    intro other hother hotherOwn _
    obtain ⟨greatest, hgreatestKey, hle⟩ := hgreatest other hother hotherOwn
    rw [hlatest] at hgreatestKey
    cases hgreatestKey
    exact lt_of_le_of_lt hle ((key_lt_iff hlatestSequence hkey).mpr (Nat.lt_succ_self _))

/-! ## Tasks -/

/-- The incarnation is an old one, and its document is in the principal's scope. -/
def Granted (db : Store) (principal : Principal) (documentId : String) (generation : Nat) : Prop :=
  generation < db.generations ∧ ∀ document, db.documents.get documentId = some document →
    document.collaborationGeneration = generation → principal.inScope document = true

/-- The ids of the appended updates that the reader has received. -/
def received (walk : Walk) : List Nat :=
  walk.batches.flatMap fun batch => batch.updates.flatMap (·.parts)

/-- What was there when the reader started was received or is still to come. -/
def Covered (db : Store) (documentId : String) (generation : Nat) (walk : Walk)
    (cursor : Option Key) : Prop :=
  ∀ row ∈ walk.known, row.isOf documentId generation = true → ∀ part ∈ row.update.parts,
    part ∈ received walk ∨ ∃ stored ∈ db.rows, stored.isOf documentId generation = true ∧
      (∀ k ∈ cursor, k < stored.cursorKey) ∧ part ∈ stored.update.parts

/-- A batch names exactly the rows that it returns, which are of its incarnation. -/
structure BatchOk (db : Store) (documentId : String) (batch : Batch) : Prop where
  updates : batch.updates = batch.rows.map (·.update)
  ids : batch.includedUpdateIds = batch.rows.map (·.id)
  own : ∀ row ∈ batch.rows, row ∈ db.log ∧ row.isOf documentId batch.generation = true

structure WalkInv (db : Store) (documentId : String) (walk : Walk) (cursor : Option Key) : Prop where
  known : ∀ row ∈ walk.known, row ∈ db.log
  batches : ∀ batch ∈ walk.batches, BatchOk db documentId batch
  fresh : walk.generation = none → cursor = none
  covered : ∀ generation, walk.generation = some generation →
    generation < db.generations ∧
      (Current db documentId generation → Covered db documentId generation walk cursor)

/-- The page is of the incarnation of the first one, or that one is gone. -/
def SameWalk (db : Store) (documentId : String) (walk : Walk) (generation : Nat) : Prop :=
  ∃ first, walk.generation = some first ∧ (first = generation ∨ ¬Current db documentId first)

/-- Nothing of the incarnation of the first page is missing. -/
structure Walked (db : Store) (documentId : String) (walk : Walk) : Prop where
  batches : ∀ batch ∈ walk.batches, BatchOk db documentId batch
  complete : ∀ generation, walk.generation = some generation →
    generation < db.generations ∧ (Current db documentId generation →
      ∀ row ∈ walk.known, row.isOf documentId generation = true →
        ∀ part ∈ row.update.parts, part ∈ received walk)

def PhaseInv (db : Store) (principal : Principal) (documentId : String) : Phase → Prop
  | .entering write | .loading write => Merges db.log write
  | .authorizing write generation | .reading write generation _ =>
    Merges db.log write ∧ Granted db principal documentId generation
  | .committing write generation _ key => Merges db.log write ∧
      Granted db principal documentId generation ∧ Fits db documentId generation write key
  | .verifying generation => Granted db principal documentId generation
  | .cleaning generation => generation < db.generations ∧ ¬Current db documentId generation
  | .pageLoading walk cursor => WalkInv db documentId walk cursor
  | .pageAuthorizing walk cursor generation | .pageReading walk cursor generation =>
    WalkInv db documentId walk cursor ∧ SameWalk db documentId walk generation
  | .walked walk => Walked db documentId walk
  | _ => True

def TaskInv (db : Store) (_ : Nat) (task : Task) : Prop :=
  PhaseInv db task.principal task.documentId task.phase

/-! ## What the tasks know stays true -/

section Stable

variable {principal : Principal} {documentId : String} {generation : Nat} {write : Write}
  {walk : Walk} {cursor : Option Key}

theorem merges_mono (h : Advances db db') (hmerges : Merges db.log write) :
    Merges db'.log write := by
  intro id hid
  obtain ⟨row, hrow, hmerged⟩ := hmerges id hid
  exact ⟨row, h.log row hrow, hmerged⟩

theorem granted_mono (h : Advances db db') (hgranted : Granted db principal documentId generation) :
    Granted db' principal documentId generation := by
  refine ⟨Nat.lt_of_lt_of_le hgranted.1 h.generations, ?_⟩
  intro document hget hgeneration
  exact hgranted.2 document
    (h.documents documentId document hget (by rw [hgeneration]; exact hgranted.1)) hgeneration

theorem fits_mono (h : Advances db db') (hmerges : Merges db.log write)
    (hfits : Fits db documentId generation write key) :
    Fits db' documentId generation write key := by
  obtain ⟨n, hn, hpositive, hused⟩ := hfits.next
  refine ⟨⟨n, hn, hpositive, fun m hlow hhigh => ?_⟩, ?_⟩
  · obtain ⟨row, hrow, hm⟩ := hused m hlow hhigh
    exact ⟨row, h.log row hrow, hm⟩
  intro row hrow hown hdeleted
  rcases h.fresh row hrow with hold | hnew
  · exact hfits.after row hold hown hdeleted
  · -- a compaction names no row of later
    obtain ⟨named, hnamed, hid, -⟩ := hmerges row.id hdeleted
    exact absurd hid (hnew named hnamed)

theorem covered_mono (h : Advances db db') (hcurrent : Current db' documentId generation)
    (hcovered : Covered db documentId generation walk cursor) :
    Covered db' documentId generation walk cursor := by
  intro row hrow hown part hpart
  rcases hcovered row hrow hown part hpart with hreceived | ⟨stored, hstored, hstoredOwn, hlater, hp⟩
  · exact .inl hreceived
  · obtain ⟨final, hfinal, hfinalOwn, hle, hfinalPart⟩ :=
      h.merged documentId generation hcurrent stored hstored hstoredOwn part hp
    exact .inr ⟨final, hfinal, hfinalOwn, fun k hk => lt_of_lt_of_le (hlater k hk) hle, hfinalPart⟩

theorem batchOk_mono (h : Advances db db') {batch : Batch} (hbatch : BatchOk db documentId batch) :
    BatchOk db' documentId batch := { hbatch with
  own row hrow := ⟨h.log row (hbatch.own row hrow).1, (hbatch.own row hrow).2⟩ }

theorem walkInv_mono (h : Advances db db') (hwalk : WalkInv db documentId walk cursor) :
    WalkInv db' documentId walk cursor := { hwalk with
  known row hrow := h.log row (hwalk.known row hrow)
  batches batch hbatch := batchOk_mono h (hwalk.batches batch hbatch)
  covered generation hgeneration := by
    obtain ⟨hold, hcovered⟩ := hwalk.covered generation hgeneration
    exact ⟨Nat.lt_of_lt_of_le hold h.generations, fun hcurrent =>
      covered_mono h hcurrent (hcovered (current_back h hold hcurrent))⟩ }

theorem phaseInv_mono (h : Advances db db') {phase : Phase}
    (hphase : PhaseInv db principal documentId phase) :
    PhaseInv db' principal documentId phase := by
  cases phase with
  | entering write | loading write => exact merges_mono h hphase
  | authorizing write generation => exact ⟨merges_mono h hphase.1, granted_mono h hphase.2⟩
  | reading write generation attempt => exact ⟨merges_mono h hphase.1, granted_mono h hphase.2⟩
  | committing write generation attempt key =>
    exact ⟨merges_mono h hphase.1, granted_mono h hphase.2.1, fits_mono h hphase.1 hphase.2.2⟩
  | verifying generation => exact granted_mono h hphase
  | cleaning generation =>
    exact ⟨Nat.lt_of_lt_of_le hphase.1 h.generations,
      fun hcurrent => hphase.2 (current_back h hphase.1 hcurrent)⟩
  | pageLoading walk cursor => exact walkInv_mono h hphase
  | pageAuthorizing walk cursor generation | pageReading walk cursor generation =>
    obtain ⟨hwalk, first, hfirst, hsame⟩ := hphase
    have hold := (hwalk.covered first hfirst).1
    exact ⟨walkInv_mono h hwalk, first, hfirst,
      hsame.imp_right fun hgone hcurrent => hgone (current_back h hold hcurrent)⟩
  | walked walk =>
    refine ⟨fun batch hbatch => batchOk_mono h (hphase.batches batch hbatch), ?_⟩
    intro generation hgeneration
    obtain ⟨hold, hcomplete⟩ := hphase.complete generation hgeneration
    exact ⟨Nat.lt_of_lt_of_le hold h.generations,
      fun hcurrent => hcomplete (current_back h hold hcurrent)⟩
  | _ => exact trivial

end Stable

/-! ## Steps -/

variable {document : DocumentRecord}

theorem loadScoped_ok {principal : Principal} {id : String}
    (h : loadScoped db.documents principal id = .ok document) :
    db.documents.get id = some document ∧ principal.inScope document = true := by
  simp only [loadScoped] at h
  split at h
  · cases h
  rename_i found hget
  split at h
  · rename_i hscope
    cases h
    exact ⟨hget, hscope⟩
  · cases h

section Writers

variable {limits : Limits} {task : Task} {granted : Bool} {write : Write} {generation : Nat}

theorem loading_inv (hinv : DbInv db)
    (hphase : Merges db.log write) :
    PhaseInv db task.principal task.documentId
      (match loadScoped db.documents task.principal task.documentId with
        | .error error => .failed error
        | .ok document => .authorizing write document.collaborationGeneration) := by
  split
  · exact trivial
  rename_i document hload
  obtain ⟨hget, hscope⟩ := loadScoped_ok hload
  refine ⟨hphase, hinv.documents _ _ hget, ?_⟩
  intro other hother _
  rw [hget] at hother
  cases hother
  exact hscope

theorem reading_inv {attempt : Nat} (hinv : DbInv db) (hmerges : Merges db.log write)
    (hgranted : Granted db task.principal task.documentId generation) :
    PhaseInv db task.principal task.documentId
      (match loadScoped db.documents task.principal task.documentId with
        | .error error => .failed error
        | .ok document =>
          if document.collaborationGeneration ≠ generation then .failed "MDFN_DOCUMENT_NOT_FOUND"
          else match collaborationCursorKey (latestKey db task.documentId generation) with
            | .error error => .failed error
            | .ok key => .committing write generation attempt key) := by
  split
  · exact trivial
  split
  · exact trivial
  · split
    · exact trivial
    · rename_i key hkey
      exact ⟨hmerges, hgranted, allocated_fits hinv hkey⟩

/-- The writer that does not find its incarnation again has seen it gone. -/
theorem verifying_inv (hgranted : Granted db task.principal task.documentId generation) :
    PhaseInv db task.principal task.documentId
      (match loadScoped db.documents task.principal task.documentId with
        | .error _ => .cleaning generation
        | .ok document =>
          if document.collaborationGeneration ≠ generation then .cleaning generation
          else .done) := by
  split
  · rename_i error hload
    refine ⟨hgranted.1, ?_⟩
    rintro ⟨document, hget, hgeneration⟩
    simp [loadScoped, hget, hgranted.2 document hget hgeneration] at hload
  · rename_i document hload
    split
    · rename_i hother
      refine ⟨hgranted.1, ?_⟩
      rintro ⟨found, hget, hgeneration⟩
      rw [(loadScoped_ok hload).1] at hget
      cases hget
      exact hother hgeneration
    · exact trivial

/-- The commit takes no key that was used before. -/
def allocates (db : Store) (task : Task) : Bool :=
  match task.phase with
  | .committing _ generation _ key => !keyTaken db.log task.documentId generation key ||
      keyTaken db.rows task.documentId generation key
  | _ => true

theorem writeStep_inv {phase' : Phase} (hinv : DbInv db)
    (hphase : PhaseInv db task.principal task.documentId task.phase)
    (hallocates : allocates db task = true)
    (hstep : writeStep limits db task granted task.phase = some (db', phase')) :
    DbInv db' ∧ Advances db db' ∧ PhaseInv db' task.principal task.documentId phase' := by
  cases hcase : task.phase with
  | entering write =>
    rw [hcase] at hstep hphase
    cases hstep
    refine ⟨hinv, advances_refl db, ?_⟩
    split
    · exact trivial
    · exact hphase
  | loading write =>
    rw [hcase] at hstep hphase
    cases hstep
    exact ⟨hinv, advances_refl db, loading_inv hinv hphase⟩
  | authorizing write generation =>
    rw [hcase] at hstep hphase
    cases hstep
    refine ⟨hinv, advances_refl db, ?_⟩
    split
    · exact hphase
    · exact trivial
  | reading write generation attempt =>
    rw [hcase] at hstep hphase
    cases hstep
    exact ⟨hinv, advances_refl db, reading_inv hinv hphase.1 hphase.2⟩
  | committing write generation attempt key =>
    rw [hcase] at hstep hphase
    obtain ⟨hmerges, hgranted, hfits⟩ := hphase
    simp only [writeStep] at hstep
    split at hstep
    · cases hstep
      exact ⟨hinv, advances_refl db, trivial⟩
    split at hstep
    · cases hstep
      refine ⟨hinv, advances_refl db, ?_⟩
      split
      · exact ⟨hmerges, hgranted⟩
      · exact trivial
    · rename_i hstored
      cases hstep
      simp only [allocates, hcase, Bool.or_eq_true, Bool.not_eq_true'] at hallocates
      have hfree := hallocates.resolve_right hstored
      have hadvances : Advances db
          (commitWrite db task.principal task.documentId generation write key) :=
        commit_advances hinv hmerges hfits
      exact ⟨commit_inv hinv hmerges hfits hgranted.1 hfree, hadvances,
        granted_mono hadvances hgranted⟩
  | verifying generation =>
    rw [hcase] at hstep hphase
    cases hstep
    exact ⟨hinv, advances_refl db, verifying_inv hphase⟩
  | cleaning generation =>
    rw [hcase] at hstep hphase
    cases hstep
    exact ⟨clean_inv hinv hphase.2, clean_advances hphase.2, trivial⟩
  | _ =>
    rw [hcase] at hstep
    cases hstep

end Writers

section Readers

variable {limits : Limits} {task : Task} {choice : Choice} {walk : Walk} {cursor : Option Key}
  {generation : Nat} {documentId : String}

theorem pageLoading_inv (hinv : DbInv db) (hwalk : WalkInv db documentId walk cursor)
    (hget : db.documents.get documentId = some document) :
    let next := { walk with
      generation := walk.generation.or (some document.collaborationGeneration) }
    WalkInv db documentId next cursor ∧
      SameWalk db documentId next document.collaborationGeneration := by
  cases hfirst : walk.generation with
  | none =>
    refine ⟨⟨hwalk.known, hwalk.batches, fun h => (by cases h), ?_⟩, _, rfl, .inl rfl⟩
    intro generation hgeneration
    cases hgeneration
    refine ⟨hinv.documents _ _ hget, fun hcurrent row hrow hown part hpart => .inr ?_⟩
    obtain ⟨stored, hstored, hstoredOwn, hstoredPart⟩ :=
      hinv.kept _ _ hcurrent row (hwalk.known row hrow) hown part hpart
    refine ⟨stored, hstored, hstoredOwn, ?_, hstoredPart⟩
    rw [hwalk.fresh hfirst]
    exact nofun
  | some first =>
    refine ⟨⟨hwalk.known, hwalk.batches, fun h => (by cases h), ?_⟩, first, rfl, ?_⟩
    · intro generation hgeneration
      cases hgeneration
      exact hwalk.covered first hfirst
    · by_cases hsame : first = document.collaborationGeneration
      · exact .inl hsame
      refine .inr ?_
      rintro ⟨found, hfound, hgeneration⟩
      rw [hget] at hfound
      cases hfound
      exact hsame hgeneration.symm

theorem received_cons (batch : Batch) (part : Nat) :
    part ∈ received { walk with batches := batch :: walk.batches } ↔
      part ∈ batch.updates.flatMap (·.parts) ∨ part ∈ received walk := by
  simp only [received, flatMap_cons, mem_append]

theorem batch_ok (hinv : DbInv db) (limit : Nat) :
    BatchOk db documentId (collaborationBatch limits db documentId generation cursor limit) where
  updates := rfl
  ids := rfl
  own row hrow := by
    obtain ⟨hstored, hown⟩ := mem_batch_rows hrow
    exact ⟨hinv.sublist.subset hstored, hown⟩

theorem page_covered {limit : Nat} (hinv : DbInv db) (hlimit : 1 ≤ limit)
    (hcovered : Covered db documentId generation walk cursor) (hrow : row ∈ walk.known)
    (hown : row.isOf documentId generation = true) (hpart : part ∈ row.update.parts) :
    let batch := collaborationBatch limits db documentId generation cursor limit
    part ∈ received { walk with batches := batch :: walk.batches } ∨
      ∃ stored ∈ db.rows, stored.isOf documentId generation = true ∧
        (∃ key, batch.nextCursor = some key ∧ key < stored.cursorKey) ∧
        part ∈ stored.update.parts := by
  dsimp only
  rw [received_cons]
  rcases hcovered row hrow hown part hpart with hreceived | ⟨stored, hstored, hstoredOwn, hlater, hp⟩
  · exact .inl (.inr hreceived)
  have hmem := mem_rowsFrom.mpr ⟨hstored, hstoredOwn, hlater⟩
  rcases batch_or_after (keys_nodup hinv documentId generation) hlimit hmem with hpage | hafter
  · refine .inl (.inl (mem_flatMap.mpr ⟨stored.update, ?_, hp⟩))
    exact mem_map.mpr ⟨stored, hpage, rfl⟩
  · exact .inr ⟨stored, hstored, hstoredOwn, hafter, hp⟩

variable (limits) in
theorem pageReading_inv {limit : Nat} (hinv : DbInv db) (hlimit : 1 ≤ limit)
    (hwalk : WalkInv db documentId walk cursor) (hsame : SameWalk db documentId walk generation) :
    let batch := collaborationBatch limits db documentId generation cursor limit
    let next := { walk with batches := batch :: walk.batches }
    (∀ key, batch.nextCursor = some key → WalkInv db documentId next (some key)) ∧
      (batch.nextCursor = none → Walked db documentId next) := by
  obtain ⟨first, hfirst, hcase⟩ := hsame
  obtain ⟨hold, hcovered⟩ := hwalk.covered first hfirst
  have hbatches : ∀ batch ∈
      collaborationBatch limits db documentId generation cursor limit :: walk.batches,
      BatchOk db documentId batch := by
    intro batch hmem
    rcases mem_cons.mp hmem with rfl | hmem
    · exact batch_ok hinv limit
    · exact hwalk.batches batch hmem
  refine ⟨fun key hkey => ⟨hwalk.known, hbatches, fun h => ?_, ?_⟩, fun hnone => ⟨hbatches, ?_⟩⟩
  · exact absurd (hfirst.symm.trans h) (by simp)
  · intro other hother
    obtain rfl : first = other := Option.some.inj (hfirst.symm.trans hother)
    refine ⟨hold, fun hcurrent row hrow hown part hpart => ?_⟩
    obtain rfl := hcase.resolve_right fun hgone => hgone hcurrent
    rcases page_covered hinv hlimit (hcovered hcurrent) hrow hown hpart with hreceived | hafter
    · exact .inl hreceived
    obtain ⟨stored, hstored, hstoredOwn, ⟨next, hnext, hlater⟩, hp⟩ := hafter
    rw [hkey] at hnext
    refine .inr ⟨stored, hstored, hstoredOwn, fun k hk => ?_, hp⟩
    rwa [← Option.some.inj hk, Option.some.inj hnext]
  · intro other hother
    obtain rfl : first = other := Option.some.inj (hfirst.symm.trans hother)
    refine ⟨hold, fun hcurrent row hrow hown part hpart => ?_⟩
    obtain rfl := hcase.resolve_right fun hgone => hgone hcurrent
    rcases page_covered hinv hlimit (hcovered hcurrent) hrow hown hpart with hreceived | hafter
    · exact hreceived
    · obtain ⟨stored, -, -, ⟨next, hnext, -⟩, -⟩ := hafter
      rw [hnone] at hnext
      cases hnext

theorem readStep_inv {phase' : Phase} (hinv : DbInv db)
    (hphase : PhaseInv db task.principal task.documentId task.phase)
    (hstep : readStep limits db task choice task.phase = some phase') :
    PhaseInv db task.principal task.documentId phase' := by
  cases hcase : task.phase with
  | starting =>
    rw [hcase] at hstep
    cases hstep
    exact ⟨fun _ => id, forall_mem_nil _, fun _ => rfl, fun _ h => by cases h⟩
  | pageLoading walk cursor =>
    rw [hcase] at hstep hphase
    cases hstep
    split
    · exact trivial
    · rename_i document hload
      exact pageLoading_inv hinv hphase (loadScoped_ok hload).1
  | pageAuthorizing walk cursor generation =>
    rw [hcase] at hstep hphase
    cases hstep
    split
    · exact hphase
    · exact trivial
  | pageReading walk cursor generation =>
    rw [hcase] at hstep hphase
    cases hstep
    split
    · exact trivial
    rename_i hlimit
    obtain ⟨hgoes, hends⟩ :=
      pageReading_inv limits hinv (Nat.le_of_not_lt hlimit) hphase.1 hphase.2
    dsimp only
    split
    · rename_i hnone
      exact hends hnone
    · rename_i key hkey
      exact hgoes key hkey
  | _ =>
    rw [hcase] at hstep
    cases hstep

end Readers

theorem next_inv {limits : Limits} {i : Nat} {task task' : Task} {choice : Choice}
    (hinv : DbInv db) (htask : TaskInv db i task) (hallocates : allocates db task = true)
    (hnext : next limits db i task choice = some (db', task')) :
    DbInv db' ∧ Advances db db' ∧ TaskInv db' i task' := by
  unfold CollaborationLog.next at hnext
  split at hnext
  · split at hnext
    · cases hnext
      exact ⟨hinv, advances_refl db, trivial⟩
    · cases hnext
      exact ⟨insert_inv hinv, insert_advances, trivial⟩
  · cases hnext
    exact ⟨remove_inv hinv, remove_advances, trivial⟩
  split at hnext
  · rename_i hwrite
    cases hnext
    have hresult := writeStep_inv hinv htask hallocates hwrite
    exact hresult
  · obtain ⟨phase', hread, heq⟩ := Option.map_eq_some_iff.mp hnext
    cases heq
    have hresult := readStep_inv hinv htask hread
    exact ⟨hinv, advances_refl db, hresult⟩

/-! ## Runs -/

/-- A compaction's snapshot contains the updates that it names, and no commit takes a key that was
used before. -/
def allowed (s : System Store Task) : Act CollaborationLog.Call Choice → Bool
  | .spawn call =>
    match call.request with
    | .write write => write.deletes.all fun id => s.shared.log.any fun row =>
        row.id = id && row.update.parts.all fun part => part ∈ snapshotParts write
    | _ => true
  | .move i _ => (s.procs[i]?).all (allocates s.shared)

structure SysInv (s : System Store Task) : Prop where
  db : DbInv s.shared
  tasks : Each TaskInv s

variable {s : System Store Task}

theorem startTask_inv {call : CollaborationLog.Call} (hallowed : allowed s (.spawn call) = true)
    (i : Nat) : TaskInv s.shared i (startTask call) := by
  unfold TaskInv startTask
  cases hrequest : call.request with
  | write write =>
    simp only [allowed, hrequest, all_eq_true, any_eq_true, Bool.and_eq_true,
      decide_eq_true_eq] at hallowed
    exact hallowed
  | create | delete | read => exact trivial

theorem step_inv {limits : Limits} {s' : System Store Task} {act : Act CollaborationLog.Call Choice}
    (h : SysInv s) (hallowed : allowed s act = true) (hstep : step limits s act = some s') :
    SysInv s' := by
  rcases act_cases hstep with ⟨call, rfl, rfl⟩ | ⟨i, choice, task, db', task', rfl, hi, hnext, rfl⟩
  · exact ⟨h.db, each_spawn h.tasks (startTask_inv hallowed _)⟩
  simp only [allowed, hi, Option.all_some] at hallowed
  obtain ⟨hdb, hadvances, htask⟩ := next_inv h.db (h.tasks i task hi) hallowed hnext
  refine ⟨hdb, ?_⟩
  apply each_move
  · exact htask
  · intro j other _ hj
    exact phaseInv_mono hadvances (h.tasks j other hj)

/-- The walk of a reader, wherever it is. -/
def walkOf : Phase → Option Walk
  | .pageLoading walk _ | .pageAuthorizing walk _ _ | .pageReading walk _ _ | .walked walk =>
    some walk
  | _ => none

/-- Keys increase in the order of the commits, every batch names exactly its rows, all of the
incarnation the reader was authorized for, a reader at the end has received what was there when it
started, and writers have deleted rows of their incarnation only. -/
structure Complete (s : System Store Task) : Prop where
  increasing : s.shared.log.Pairwise fun later earlier =>
    Same later earlier → earlier.cursorKey < later.cursorKey
  batches : ∀ (i : Nat) task walk, s.procs[i]? = some task → walkOf task.phase = some walk →
    ∀ batch ∈ walk.batches, BatchOk s.shared task.documentId batch
  complete : ∀ (i : Nat) task walk generation, s.procs[i]? = some task →
    task.phase = .walked walk → walk.generation = some generation →
    Current s.shared task.documentId generation →
    ∀ row ∈ walk.known, row.isOf task.documentId generation = true →
      ∀ part ∈ row.update.parts, part ∈ received walk
  deletions : ∀ d ∈ s.shared.deletions, d.row.isOf d.documentId d.generation = true

theorem complete_of_inv (h : SysInv s) : Complete s where
  increasing := h.db.increasing
  batches i task walk hi hwalk := by
    have htask : PhaseInv s.shared task.principal task.documentId task.phase := h.tasks i task hi
    cases hphase : task.phase <;> rw [hphase] at hwalk htask <;> cases hwalk
    · exact htask.batches
    · exact htask.1.batches
    · exact htask.1.batches
    · exact htask.batches
  complete i task walk generation hi hphase hgeneration := by
    have htask : PhaseInv s.shared task.principal task.documentId task.phase := h.tasks i task hi
    rw [hphase] at htask
    exact (htask.complete generation hgeneration).2
  deletions := h.db.deletions

def noRequests : System Store Task := ⟨Store.empty, []⟩

theorem log_complete {limits : Limits} {acts : List (Act CollaborationLog.Call Choice)} {s : System Store Task}
    (hallowed : Guarded (step limits) (fun s act => allowed s act = true) noRequests acts)
    (hrun : run (step limits) noRequests acts = some s) : Complete s := by
  have hstart : SysInv noRequests := ⟨empty_inv, each_nil TaskInv Store.empty⟩
  have hinv : SysInv s := guarded_run_invariant (step limits)
    (fun s act s' h hguard hstep => step_inv h hguard hstep) hstart hallowed hrun
  exact complete_of_inv hinv

/-! ## Runs on one document -/

def plainLimits : Limits := ⟨100, 100, 2, by decide⟩

def plainCall (request : Request) : Act CollaborationLog.Call Choice := .spawn ⟨⟨"alice", none⟩, "d", request⟩

/-- The task makes its next moves, authorized where it asks and with pages of two. -/
def moves (i n : Nat) : List (Act CollaborationLog.Call Choice) := List.replicate n (.move i ⟨true, 2⟩)

/-- Three updates, of which the second writer of one key tries again; a reader gets the first page,
then a compaction takes the other rows away, and the reader goes on. -/
def compacted : List (Act CollaborationLog.Call Choice) :=
  [plainCall .create] ++ moves 0 1 ++
  [plainCall (.write (.append 7)), plainCall (.write (.append 8)),
    plainCall (.write (.append 9))] ++
  moves 1 4 ++ moves 2 4 ++ moves 1 2 ++ moves 2 4 ++ moves 3 6 ++
  [plainCall .read] ++ moves 4 4 ++
  [plainCall (.write (.compact ⟨10, [1, 2]⟩ [1, 2]))] ++ moves 5 6 ++ moves 4 3

theorem compacted_complete : ∃ s, run (step plainLimits) noRequests compacted = some s ∧
    s.shared.rows.length = 2 ∧ Complete s := by
  have hends : (run (step plainLimits) noRequests compacted).any
      (fun s => decide (s.shared.rows.length = 2)) = true := by decide +kernel
  obtain ⟨s, hrun, hlength⟩ := (Option.any_eq_true _ _).mp hends
  have hallowed : Guarded (step plainLimits) (fun s act => allowed s act = true) noRequests
      compacted := by decide +kernel
  exact ⟨s, hrun, of_decide_eq_true hlength, log_complete hallowed hrun⟩

/-- The first writer allocates the second key and waits; the second one commits under that key, and a
compaction takes its row away; then the first one commits. -/
def retaken : List (Act CollaborationLog.Call Choice) :=
  [plainCall .create, plainCall (.write (.append 7)), plainCall (.write (.append 8)),
    plainCall (.write (.append 9))] ++
  moves 0 1 ++ moves 1 6 ++ moves 2 4 ++ moves 3 6 ++
  [plainCall (.write (.compact ⟨10, [1]⟩ [1]))] ++ moves 4 6 ++ moves 2 2

theorem retaken_not_complete : ¬∀ s, run (step plainLimits) noRequests retaken = some s →
    Complete s := by
  intro hclaim
  have hends : (run (step plainLimits) noRequests retaken).any (fun s =>
      decide (¬s.shared.log.Pairwise fun later earlier =>
        later.documentId = earlier.documentId ∧
          later.documentGeneration = earlier.documentGeneration →
        earlier.cursorKey < later.cursorKey)) = true := by decide +kernel
  obtain ⟨s, hrun, hs⟩ := (Option.any_eq_true _ _).mp hends
  exact of_decide_eq_true hs (hclaim s hrun).increasing

end SuperFunctions.Mdfn.CollaborationLogComplete
