import SuperFunctions.Lib.Views
import SuperFunctions.SearchFn.MemoryIndex

/-!
# Tables of postings

What is found under a key and a document, after the terms of a document went in, and after a
document went out.
-/
namespace SuperFunctions.SearchFn.PostingTables

open Lib.OrderedMap Ingest PostingKey MemoryIndex List OMap Option

variable {N M D : Type} {s : Setup N M D}

def lookup (ps : Postings N M) (key docKey : String) : Option (PostingInfo N M) :=
  (ps.get key).bind fun docMap => docMap.get docKey

/-- No key without postings. -/
def Compact (ps : Postings N M) : Prop := ∀ key docMap, ps.get key = some docMap → docMap.entries ≠ []

def entryKey (entry : Entry M) : String := postingKey entry.field entry.term

def posting (docId : DocId N) (entry : Entry M) : PostingInfo N M :=
  ⟨docId, entry.frequency, entry.metadata⟩

/-- The entry of a document under a key. -/
def entryAt (entries : List (Entry M)) (key : String) : Option (Entry M) :=
  entries.find? fun entry => entryKey entry = key

variable {entries : List (Entry M)} {entry : Entry M}

theorem entryAt_entryKey (hkeys : (entries.map entryKey).Nodup) (h : entry ∈ entries) :
    entryAt entries (entryKey entry) = some entry := by
  induction entries with
  | nil => cases h
  | cons first rest ih =>
    rw [map_cons, nodup_cons] at hkeys
    rw [entryAt, find?_cons]
    rcases mem_cons.mp h with rfl | hin
    · rw [decide_eq_true rfl]
    have hne : entryKey first ≠ entryKey entry := by
      intro heq
      exact hkeys.1 (heq ▸ mem_map_of_mem hin)
    rw [decide_eq_false hne]
    exact ih hkeys.2 hin

theorem entryAt_eq_none {key : String} (h : key ∉ entries.map entryKey) :
    entryAt entries key = none := by
  rw [entryAt, find?_eq_none]
  intro entry hentry heq
  exact h (of_decide_eq_true heq ▸ mem_map_of_mem hentry)

theorem mem_of_entryAt {key : String} (h : entryAt entries key = some entry) :
    entry ∈ entries ∧ entryKey entry = key := by
  have hkey := find?_some h
  exact ⟨mem_of_find?_eq_some h, of_decide_eq_true hkey⟩

/-! ## Terms that go in -/

theorem lookup_upsertPosting (ps : Postings N M) (docKey : String) (docId : DocId N)
    (entry : Entry M) (key docKey' : String) :
    lookup (upsertPosting ps docKey docId entry) key docKey' =
      if key = entryKey entry ∧ docKey' = docKey then some (posting docId entry)
      else lookup ps key docKey' := by
  rw [lookup, upsertPosting, get_set]
  by_cases hkey : key = postingKey entry.field entry.term
  · rw [if_pos hkey, bind_some, get_set]
    by_cases hdoc : docKey' = docKey
    · rw [if_pos hdoc, if_pos ⟨hkey, hdoc⟩]
      rfl
    · rw [if_neg hdoc, if_neg fun h => hdoc h.2, lookup, hkey]
      cases ps.get (postingKey entry.field entry.term) with
      | none => rfl
      | some docMap => rfl
  · rw [if_neg hkey, if_neg fun h => hkey h.1, lookup]

theorem compact_upsertPosting {ps : Postings N M} (h : Compact ps) (docKey : String)
    (docId : DocId N) (entry : Entry M) : Compact (upsertPosting ps docKey docId entry) := by
  intro key docMap hget
  rw [upsertPosting, get_set] at hget
  split_ifs at hget with hkey
  · cases hget
    rw [Ne, entries_eq_nil_iff]
    intro hnone
    have hget := hnone docKey
    rw [get_set, if_pos rfl] at hget
    cases hget
  · exact h key docMap hget

def upsertAll (ps : Postings N M) (docKey : String) (docId : DocId N) (entries : List (Entry M)) :
    Postings N M := entries.foldl (fun ps entry => upsertPosting ps docKey docId entry) ps

theorem lookup_upsertAll (hkeys : (entries.map entryKey).Nodup) (ps : Postings N M)
    (docKey : String) (docId : DocId N) (key docKey' : String) :
    lookup (upsertAll ps docKey docId entries) key docKey' =
      if docKey' = docKey then
        ((entryAt entries key).map (posting docId)).or (lookup ps key docKey)
      else lookup ps key docKey' := by
  induction entries generalizing ps with
  | nil =>
    split_ifs with hdoc
    · rw [hdoc]
      rfl
    · rfl
  | cons entry rest ih =>
    rw [map_cons, nodup_cons] at hkeys
    have hrest := ih hkeys.2 (upsertPosting ps docKey docId entry)
    rw [upsertAll, foldl_cons]
    rw [upsertAll] at hrest
    rw [hrest, lookup_upsertPosting, lookup_upsertPosting, entryAt, entryAt, find?_cons]
    by_cases hkey : key = entryKey entry
    · have hnone := entryAt_eq_none (hkey ▸ hkeys.1 : key ∉ rest.map entryKey)
      rw [entryAt] at hnone
      rw [hnone, decide_eq_true hkey.symm]
      by_cases hdoc : docKey' = docKey
      · rw [if_pos hdoc, if_pos hdoc, if_pos ⟨hkey, rfl⟩]
        rfl
      · rw [if_neg hdoc, if_neg hdoc, if_neg fun h => hdoc h.2]
    · rw [decide_eq_false (Ne.symm hkey)]
      simp only [hkey, false_and, if_false]

theorem compact_upsertAll {ps : Postings N M} (h : Compact ps) (docKey : String)
    (docId : DocId N) (entries : List (Entry M)) :
    Compact (upsertAll ps docKey docId entries) := by
  induction entries generalizing ps with
  | nil => exact h
  | cons entry rest ih => exact ih (compact_upsertPosting h docKey docId entry)

/-! ## Documents that go out -/

/-- What `removePosting` makes of the postings. -/
def dropPosting (docKey : String) (ps : Postings N M)
    (entry : String × OMap String (PostingInfo N M)) : Postings N M :=
  if (entry.2.delete docKey).entries = [] then
    (ps.set entry.1 (entry.2.delete docKey)).delete entry.1
  else ps.set entry.1 (entry.2.delete docKey)

/-- The term whose count goes down with a posting. -/
def countedTerm (s : Setup N M D) (key : String) (found : Option (PostingInfo N M)) :
    Option String :=
  found.bind fun posting =>
    if isPrefixPosting s posting.metadata then none else some (keyTerm key)

theorem removePosting_eq (docKey : String) (state : Postings N M × Vocabulary)
    (entry : String × OMap String (PostingInfo N M)) :
    removePosting s docKey state entry =
      (dropPosting docKey state.1 entry,
        (countedTerm s entry.1 (entry.2.get docKey)).elim state.2 state.2.decrement) := by
  rw [removePosting, dropPosting, countedTerm]
  cases entry.2.get docKey with
  | none => simp [Vocabulary.decrement]
  | some found =>
    rw [bind_some]
    dsimp only
    split_ifs
    · rfl
    · rfl
    · rfl
    · rfl

theorem foldl_removePosting (docKey : String)
    (es : List (String × OMap String (PostingInfo N M))) (state : Postings N M × Vocabulary) :
    es.foldl (removePosting s docKey) state =
      (es.foldl (dropPosting docKey) state.1,
        (es.filterMap fun e => countedTerm s e.1 (e.2.get docKey)).foldl Vocabulary.decrement
          state.2) := by
  induction es generalizing state with
  | nil => rfl
  | cons e es ih =>
    rw [foldl_cons, ih, removePosting_eq, foldl_cons, filterMap_cons]
    cases countedTerm s e.1 (e.2.get docKey) with
    | none => rfl
    | some term => rfl

theorem get_dropPosting (docKey : String) (ps : Postings N M)
    (entry : String × OMap String (PostingInfo N M)) (key : String) :
    (dropPosting docKey ps entry).get key =
      if key = entry.1 then
        if (entry.2.delete docKey).entries = [] then none else some (entry.2.delete docKey)
      else ps.get key := by
  rw [dropPosting]
  split_ifs with hempty hkey hkey
  · rw [get_delete, if_pos hkey]
  · rw [get_delete, if_neg hkey, get_set, if_neg hkey]
  · rw [get_set, if_pos hkey]
  · rw [get_set, if_neg hkey]

def dropDocument (docKey : String) (ps : Postings N M) : Postings N M :=
  ps.entries.foldl (dropPosting docKey) ps

theorem get_dropDocument (docKey : String) (ps : Postings N M) (key : String) :
    (dropDocument docKey ps).get key =
      (ps.get key).bind fun docMap =>
        if (docMap.delete docKey).entries = [] then none else some (docMap.delete docKey) := by
  rw [dropDocument, get_foldl_entries (f := fun docMap =>
    if (docMap.delete docKey).entries = [] then none else some (docMap.delete docKey))
    (get_dropPosting docKey)]
  cases ps.get key <;> rfl

theorem lookup_dropDocument (docKey : String) (ps : Postings N M) (key docKey' : String) :
    lookup (dropDocument docKey ps) key docKey' =
      if docKey' = docKey then none else lookup ps key docKey' := by
  rw [lookup, get_dropDocument, lookup]
  cases ps.get key with
  | none => simp
  | some docMap =>
    rw [bind_some, bind_some]
    have hdelete := get_delete docMap docKey docKey'
    split_ifs with hempty hdoc hdoc
    · rfl
    · rw [if_neg hdoc] at hdelete
      rw [← hdelete]
      exact ((entries_eq_nil_iff _).mp hempty docKey').symm
    · rwa [if_pos hdoc] at hdelete
    · rwa [if_neg hdoc] at hdelete

theorem compact_dropDocument (docKey : String) (ps : Postings N M) :
    Compact (dropDocument docKey ps) := by
  intro key docMap hget
  rw [get_dropDocument, bind_eq_some_iff] at hget
  obtain ⟨old, -, hold⟩ := hget
  split_ifs at hold with hempty
  cases hold
  exact hempty

theorem countedTerms_eq (docKey : String) (ps : Postings N M) :
    (ps.entries.filterMap fun e => countedTerm s e.1 (e.2.get docKey)) =
      ps.keys.filterMap fun key => countedTerm s key (lookup ps key docKey) := by
  rw [OMap.keys, filterMap_map]
  refine filterMap_congr fun e he => ?_
  have hget := (ps.mem_entries_iff_get e.1 e.2).mp he
  show countedTerm s e.1 (e.2.get docKey) = countedTerm s e.1 (lookup ps e.1 docKey)
  rw [lookup, hget]
  rfl

/-- They are the terms of the document's entries that are no prefixes. -/
theorem countedTerms_perm {docKey : String} {docId : DocId N} {ps : Postings N M}
    (hkeys : (entries.map entryKey).Nodup)
    (hplain : ∀ entry ∈ entries, keyTerm (entryKey entry) = entry.term)
    (hlookup : ∀ key, lookup ps key docKey = (entryAt entries key).map (posting docId)) :
    (ps.keys.filterMap fun key => countedTerm s key (lookup ps key docKey)).Perm
      ((entries.filter fun entry => !isPrefixPosting s entry.metadata).map Entry.term) := by
  have hfilter : (ps.keys.filterMap fun key => countedTerm s key (lookup ps key docKey)) =
      (ps.keys.filter fun key => key ∈ entries.map entryKey).filterMap
        fun key => countedTerm s key (lookup ps key docKey) := by
    rw [filterMap_filter]
    refine filterMap_congr fun key _ => ?_
    split_ifs with hkey
    · rfl
    · rw [hlookup, entryAt_eq_none (by simpa using hkey)]
      rfl
  have hperm : (ps.keys.filter fun key => key ∈ entries.map entryKey).Perm
      (entries.map entryKey) := by
    have hnodup : ps.keys.Nodup := ps.nodup
    rw [perm_ext_iff_of_nodup (hnodup.filter _) hkeys]
    intro key
    rw [mem_filter, decide_eq_true_iff]
    refine ⟨And.right, fun hkey => ⟨?_, hkey⟩⟩
    obtain ⟨entry, hentry, rfl⟩ := mem_map.mp hkey
    have hfound := hlookup (entryKey entry)
    rw [entryAt_entryKey hkeys hentry, lookup] at hfound
    rw [mem_keys_iff_get]
    cases hget : ps.get (entryKey entry) with
    | none =>
      rw [hget] at hfound
      cases hfound
    | some docMap => rfl
  have hterms : (entries.map entryKey).filterMap
      (fun key => countedTerm s key (lookup ps key docKey)) =
      (entries.filter fun entry => !isPrefixPosting s entry.metadata).map Entry.term := by
    rw [filterMap_map, ← filterMap_eq_map, filterMap_filter]
    refine filterMap_congr fun entry hentry => ?_
    show countedTerm s (entryKey entry) (lookup ps (entryKey entry) docKey) = _
    rw [hlookup, entryAt_entryKey hkeys hentry, map_some, countedTerm, bind_some,
      hplain entry hentry]
    show (if isPrefixPosting s entry.metadata then none else some entry.term) = _
    cases isPrefixPosting s entry.metadata with
    | true => rfl
    | false => rfl
  rw [hfilter, ← hterms]
  exact hperm.filterMap _

end SuperFunctions.SearchFn.PostingTables
