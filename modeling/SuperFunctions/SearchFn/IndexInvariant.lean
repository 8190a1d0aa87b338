import SuperFunctions.SearchFn.PostingTables

/-!
# The index of the documents that are there

What a resource holds, in terms of the documents that were indexed and not removed, and how
indexing and removing keep it that way.
-/
namespace SuperFunctions.SearchFn.IndexInvariant

open Lib.OrderedMap Ingest PostingKey MemoryIndex PostingTables VocabularyCounts List OMap Option

variable {N M D : Type} (s : Setup N M D)

/-- The documents under their keys, in the order in which they were last indexed. -/
abbrev Documents (N D : Type) := OMap String (Document N D)

def docKey (doc : Document N D) : String := toKey s.numberText doc.id

def entries (doc : Document N D) : List (Entry M) := entriesOf s.pipeline doc.fields

def length (doc : Document N D) : Nat := totalLength s.pipeline doc.fields

/-- The terms of a document that the vocabulary counts. -/
def countedTerms (doc : Document N D) : List String :=
  ((entries s doc).filter fun entry => !isPrefixPosting s entry.metadata).map Entry.term

/-- The keys of the document's postings tell their field and their term. -/
def PlainDocument (doc : Document N D) : Prop :=
  ∀ entry ∈ entries s doc, PlainField entry.field ∧ PlainTerm entry.term

instance (doc : Document N D) : Decidable (PlainDocument s doc) :=
  inferInstanceAs (Decidable (∀ entry ∈ entries s doc, _))

def termCount (docs : Documents N D) (term : String) : Nat :=
  (docs.values.map fun doc => (countedTerms s doc).count term).sum

structure Represents (engine : ResourceEngine N M D) (docs : Documents N D) : Prop where
  plain : ∀ key doc, docs.get key = some doc → PlainDocument s doc
  postings : ∀ key k, lookup engine.postings key k =
    (docs.get k).bind fun doc => (entryAt (entries s doc) key).map (posting doc.id)
  compact : Compact engine.postings
  lengths : ∀ k, engine.stats.lengths.get k =
    (docs.get k).bind fun doc => if length s doc = 0 then none else some (length s doc)
  totalLength : engine.stats.totalLength = ((docs.values.map (length s)).sum : Nat)
  documentCount : engine.stats.documentCount =
    (docs.values.map fun doc => if length s doc = 0 then 0 else 1).sum
  docIds : ∀ k, engine.docIds.get k =
    (docs.get k).bind fun doc => if length s doc = 0 then none else some doc.id
  docMetadata : ∀ k, engine.docMetadata.get k =
    (docs.get k).bind fun doc => if length s doc = 0 then none else doc.metadata
  vocabulary : Counts s engine.vocabulary (termCount s docs)
  fieldNames : ∀ key doc, docs.get key = some doc →
    ∀ entry ∈ entries s doc, entry.field ∈ engine.fieldNames
  plainFields : ∀ field ∈ engine.fieldNames, PlainField field

variable {s}

/-! ## Documents -/

variable {doc : Document N D}

theorem nodup_entryKeys (h : PlainDocument s doc) : ((entries s doc).map entryKey).Nodup := by
  have hpairs := nodup_entriesOf (p := s.pipeline) doc.fields
  have hmap : (entries s doc).map entryKey =
      ((entries s doc).map fun entry => (entry.field, entry.term)).map
        fun pair => postingKey pair.1 pair.2 := by
    rw [List.map_map]
    rfl
  rw [hmap]
  refine List.Nodup.map_on ?_ hpairs
  intro a ha b hb heq
  obtain ⟨entry, hentry, rfl⟩ := mem_map.mp ha
  obtain ⟨entry', hentry', rfl⟩ := mem_map.mp hb
  obtain ⟨hfield, hterm⟩ := postingKey_injective (h entry hentry).1 (h entry' hentry').1 heq
  exact Prod.ext hfield hterm

theorem keyTerm_entryKey (h : PlainDocument s doc) :
    ∀ entry ∈ entries s doc, keyTerm (entryKey entry) = entry.term :=
  fun entry hentry => keyTerm_postingKey (h entry hentry).1 (h entry hentry).2

theorem represents_createEngine : Represents s (createEngine (M := M)) (OMap.empty) where
  plain _ _ h := by cases h
  postings _ _ := rfl
  compact _ _ h := by cases h
  lengths _ := rfl
  totalLength := rfl
  documentCount := rfl
  docIds _ := rfl
  docMetadata _ := rfl
  vocabulary := counts_empty
  fieldNames _ _ h := by cases h
  plainFields _ h := by cases h

/-! ## Removing -/

theorem removeDocFromEngine_eq (engine : ResourceEngine N M D) (id : DocId N) :
    removeDocFromEngine s engine id =
      { postings := dropDocument (toKey s.numberText id) engine.postings
        vocabulary := (engine.postings.keys.filterMap fun key => countedTerm s key
          (lookup engine.postings key (toKey s.numberText id))).foldl Vocabulary.decrement
          engine.vocabulary
        stats := engine.stats.removeDocument (toKey s.numberText id)
        docIds := engine.docIds.delete (toKey s.numberText id)
        docMetadata := engine.docMetadata.delete (toKey s.numberText id)
        fieldNames := engine.fieldNames } := by
  rw [removeDocFromEngine, foldl_removePosting, countedTerms_eq]
  rfl

variable {docs : Documents N D} {engine : ResourceEngine N M D}

theorem termCount_delete (h : Represents s engine docs) (k : String) (term : String) :
    termCount s docs term - (engine.postings.keys.filterMap fun key =>
      countedTerm s key (lookup engine.postings key k)).count term =
      termCount s (docs.delete k) term := by
  cases hget : docs.get k with
  | none =>
    have hnone : (engine.postings.keys.filterMap fun key =>
        countedTerm s key (lookup engine.postings key k)) = [] := by
      rw [filterMap_eq_nil_iff]
      intro key _
      rw [h.postings, hget]
      rfl
    rw [hnone, delete_of_get_none hget, count_nil, Nat.sub_zero]
  | some doc =>
    have hplain := h.plain k doc hget
    have hperm := countedTerms_perm (s := s) (nodup_entryKeys hplain) (keyTerm_entryKey hplain)
      (fun key => by rw [h.postings, hget, bind_some] : ∀ key,
        lookup engine.postings key k = (entryAt (entries s doc) key).map (posting doc.id))
    have hsum := sum_delete (fun doc => (countedTerms s doc).count term) hget
    rw [hperm.count_eq, termCount, termCount, hsum]
    show _ + (countedTerms s doc).count term - (countedTerms s doc).count term = _
    omega

theorem represents_remove (h : Represents s engine docs) (id : DocId N) :
    Represents s (removeDocFromEngine s engine id) (docs.delete (toKey s.numberText id)) := by
  rw [removeDocFromEngine_eq]
  generalize toKey s.numberText id = k
  have hdelete : ∀ {γ : Type} (f : Document N D → Option γ) (k' : String),
      ((docs.delete k).get k').bind f = if k' = k then none else (docs.get k').bind f := by
    intro γ f k'
    rw [get_delete]
    split_ifs
    · rfl
    · rfl
  have hkept : ∀ k' doc, (docs.delete k).get k' = some doc → docs.get k' = some doc := by
    intro k' doc hget
    rw [get_delete] at hget
    split_ifs at hget
    exact hget
  have hterms : ∀ term ∈ engine.postings.keys.filterMap fun key =>
      countedTerm s key (lookup engine.postings key k), term ≠ "" := by
    intro term hterm
    obtain ⟨key, -, hcounted⟩ := mem_filterMap.mp hterm
    obtain ⟨found, hfound, hone⟩ := bind_eq_some_iff.mp hcounted
    rw [h.postings] at hfound
    obtain ⟨doc, hdoc, hentry⟩ := bind_eq_some_iff.mp hfound
    obtain ⟨entry, hat, rfl⟩ := map_eq_some_iff.mp hentry
    obtain ⟨hmem, hkey⟩ := mem_of_entryAt hat
    split_ifs at hone
    rw [← some.inj hone, ← hkey, keyTerm_entryKey (h.plain k doc hdoc) entry hmem]
    exact entry_term_ne_empty hmem
  refine ⟨fun k' doc hget => h.plain k' doc (hkept k' doc hget), fun key k' => ?_,
    compact_dropDocument _ _, fun k' => ?_, ?_, ?_, fun k' => ?_, fun k' => ?_, ?_,
    fun k' doc hget => h.fieldNames k' doc (hkept k' doc hget), h.plainFields⟩
  · rw [lookup_dropDocument, hdelete, h.postings]
  · rw [hdelete, ← h.lengths, DocumentStats.removeDocument]
    split
    · rw [get_delete]
    · next hnone =>
      split_ifs with hk
      · rw [hk, hnone]
      · rfl
  · have hlength := h.lengths k
    cases hget : docs.get k with
    | none =>
      rw [hget, bind_none] at hlength
      rw [DocumentStats.removeDocument, hlength, delete_of_get_none hget]
      exact h.totalLength
    | some doc =>
      have hsum := sum_delete (length s) hget
      rw [hget, bind_some] at hlength
      rw [DocumentStats.removeDocument, hlength]
      have htotal := h.totalLength
      split_ifs with hzero
      · show engine.stats.totalLength = _
        omega
      · show engine.stats.totalLength - (length s doc : Nat) = _
        omega
  · have hlength := h.lengths k
    cases hget : docs.get k with
    | none =>
      rw [hget, bind_none] at hlength
      rw [DocumentStats.removeDocument, hlength, delete_of_get_none hget]
      exact h.documentCount
    | some doc =>
      have hsum := sum_delete (fun doc => if length s doc = 0 then 0 else 1) hget
      rw [hget, bind_some] at hlength
      rw [DocumentStats.removeDocument, hlength]
      have hcount := h.documentCount
      split_ifs with hzero
      · rw [if_pos hzero] at hsum
        show engine.stats.documentCount = _
        omega
      · rw [if_neg hzero] at hsum
        show engine.stats.documentCount - 1 = _
        omega
  · rw [hdelete, get_delete, h.docIds]
  · rw [hdelete, get_delete, h.docMetadata]
  · exact (counts_foldl_decrement h.vocabulary hterms).congr fun term => termCount_delete h k term

/-! ## Adding -/

theorem foldl_addEntry (id : DocId N) (es : List (Entry M)) (engine : ResourceEngine N M D) :
    es.foldl (addEntry s id) engine =
      { engine with
        fieldNames := (es.map Entry.field).foldl addToSet engine.fieldNames
        postings := upsertAll engine.postings (toKey s.numberText id) id es
        vocabulary := ((es.filter fun entry => !isPrefixPosting s entry.metadata).map
          Entry.term).foldl Vocabulary.increment engine.vocabulary } := by
  induction es generalizing engine with
  | nil => rfl
  | cons entry rest ih =>
    rw [foldl_cons, ih, addEntry, map_cons, foldl_cons, filter_cons]
    cases isPrefixPosting s entry.metadata with
    | true => rfl
    | false => rfl

theorem mem_foldl_addToSet (xs names : List String) (y : String) :
    y ∈ xs.foldl addToSet names ↔ y ∈ names ∨ y ∈ xs := by
  induction xs generalizing names with
  | nil => simp
  | cons x rest ih =>
    rw [foldl_cons, ih, mem_addToSet, mem_cons]
    tauto

theorem represents_add (h : Represents s engine docs) (hplain : PlainDocument s doc)
    (hnone : docs.get (docKey s doc) = none) :
    Represents s (addDocToEngine s engine doc) (docs.set (docKey s doc) doc) := by
  have hset : ∀ {γ : Type} (f : Document N D → Option γ) (k : String),
      ((docs.set (docKey s doc) doc).get k).bind f =
        if k = docKey s doc then f doc else (docs.get k).bind f := by
    intro γ f k
    rw [get_set]
    split_ifs
    · rfl
    · rfl
  have hpresent : ∀ k d, (docs.set (docKey s doc) doc).get k = some d →
      d = doc ∨ docs.get k = some d := by
    intro k d hget
    rw [get_set] at hget
    split_ifs at hget
    · exact .inl (some.inj hget).symm
    · exact .inr hget
  have hall : ∀ k d, (docs.set (docKey s doc) doc).get k = some d → PlainDocument s d := by
    intro k d hget
    obtain rfl | hold := hpresent k d hget
    · exact hplain
    · exact h.plain k d hold
  have htotal := sum_set_new (length s) doc hnone
  have hcount := sum_set_new (fun doc => if length s doc = 0 then 0 else 1) doc hnone
  have hterms : ∀ term, termCount s (docs.set (docKey s doc) doc) term =
      termCount s docs term + (countedTerms s doc).count term :=
    fun term => sum_set_new (fun doc => (countedTerms s doc).count term) doc hnone
  have hlookup : ∀ key, lookup engine.postings key (docKey s doc) = none := by
    intro key
    rw [h.postings, hnone]
    rfl
  rw [addDocToEngine]
  split_ifs with hzero
  · have hentries : entries s doc = [] := entriesOf_eq_nil hzero
    have hcounted : countedTerms s doc = [] := by rw [countedTerms, hentries]; rfl
    refine ⟨hall, fun key k => ?_, h.compact, fun k => ?_, ?_, ?_, fun k => ?_, fun k => ?_,
      h.vocabulary.congr fun term => ?_, fun k d hget => ?_, h.plainFields⟩
    · rw [hset, h.postings]
      split_ifs with hk
      · rw [hk, hnone, hentries]
        rfl
      · rfl
    · rw [hset, h.lengths]
      split_ifs with hk
      · rw [hk, hnone]
        rfl
      · contradiction
      · rfl
    · rw [htotal, h.totalLength]
      rw [show length s doc = 0 from hzero, Nat.add_zero]
    · rw [hcount, h.documentCount, if_pos (show length s doc = 0 from hzero), Nat.add_zero]
    · rw [hset, h.docIds]
      split_ifs with hk
      · rw [hk, hnone]
        rfl
      · contradiction
      · rfl
    · rw [hset, h.docMetadata]
      split_ifs with hk
      · rw [hk, hnone]
        rfl
      · contradiction
      · rfl
    · rw [hterms, hcounted, count_nil, Nat.add_zero]
    obtain rfl | hold := hpresent k d hget
    · rw [hentries]
      exact nofun
    · exact h.fieldNames k d hold
  · have hzero' : ¬ length s doc = 0 := hzero
    have hlength : engine.stats.lengths.get (docKey s doc) = none := by
      rw [h.lengths, hnone]
      rfl
    have hstats : engine.stats.addDocument (toKey s.numberText doc.id)
        (Ingest.totalLength s.pipeline doc.fields) =
        ⟨engine.stats.lengths.set (docKey s doc) (length s doc),
          engine.stats.totalLength + length s doc, engine.stats.documentCount + 1⟩ := by
      rw [DocumentStats.addDocument]
      rw [docKey] at hlength
      rw [hlength]
      rfl
    rw [foldl_addEntry, hstats]
    refine ⟨hall, fun key k => ?_, compact_upsertAll h.compact _ _ _, fun k => ?_, ?_, ?_,
      fun k => ?_, fun k => ?_, ?_, fun k d hget entry hentry => ?_, fun field hfield => ?_⟩
    · have hupsert := lookup_upsertAll (nodup_entryKeys hplain) engine.postings (docKey s doc)
        doc.id key k
      rw [hset]
      refine hupsert.trans ?_
      rw [hlookup, or_none]
      split_ifs
      · rfl
      · exact h.postings key k
    · rw [hset]
      rw [get_set, h.lengths]
      split_ifs
      · rfl
      · rfl
    · rw [htotal]
      show engine.stats.totalLength + (length s doc : Nat) = _
      have hold := h.totalLength
      omega
    · rw [hcount, if_neg hzero']
      show engine.stats.documentCount + 1 = _
      rw [h.documentCount]
    · rw [hset]
      show (engine.docIds.set (docKey s doc) doc.id).get k = _
      rw [get_set, h.docIds]
      split_ifs
      · rfl
      · rfl
    · rw [hset]
      show (doc.metadata.elim engine.docMetadata (engine.docMetadata.set (docKey s doc))).get k = _
      cases hmeta : doc.metadata with
      | none =>
        rw [elim_none, h.docMetadata]
        split_ifs with hk
        · rw [hk, hnone]
          rfl
        · rfl
      | some m =>
        rw [elim_some, get_set, h.docMetadata]
        split_ifs
        · rfl
        · rfl
    · exact (counts_foldl_increment h.vocabulary (countedTerms s doc)).congr fun term =>
        (hterms term).symm
    · refine (mem_foldl_addToSet _ _ _).mpr ?_
      obtain rfl | hold := hpresent k d hget
      · exact .inr (mem_map_of_mem hentry)
      · exact .inl (h.fieldNames k d hold entry hentry)
    · rcases (mem_foldl_addToSet _ _ _).mp hfield with hold | hnew
      · exact h.plainFields field hold
      · obtain ⟨entry, hentry, rfl⟩ := mem_map.mp hnew
        exact (hplain entry hentry).1

theorem represents_index (h : Represents s engine docs) (hplain : PlainDocument s doc) :
    Represents s (index s engine doc)
      ((docs.delete (docKey s doc)).set (docKey s doc) doc) :=
  represents_add (represents_remove h doc.id) hplain (by rw [get_delete]; exact if_pos rfl)

end SuperFunctions.SearchFn.IndexInvariant
