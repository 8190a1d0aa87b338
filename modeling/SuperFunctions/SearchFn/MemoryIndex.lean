import Mathlib.Algebra.BigOperators.Group.List.Basic
import Mathlib.Data.List.Sort
import SuperFunctions.SearchFn.Ingest
import SuperFunctions.SearchFn.Levenshtein

/-!
# The memory adapter of the search

One resource of the adapter: its postings, the statistics of its documents, its vocabulary, and
the calls that index, remove and search. Scores are exact numbers.
-/
namespace SuperFunctions.SearchFn.MemoryIndex

open Lib.OrderedMap Ingest PostingKey

/-- A string or a number. -/
inductive DocId (N : Type) where
  | str (s : String)
  | num (n : N)
  deriving DecidableEq

/-- What the adapter takes from its configuration and from the language. -/
structure Setup (N M D : Type) where
  pipeline : Pipeline M
  numberText : N → String
  metadataText : D → String → String
  lower : String → String
  log : Rat → Rat

structure Document (N D : Type) where
  id : DocId N
  fields : OMap String String
  metadata : Option D

structure PostingInfo (N M : Type) where
  docId : DocId N
  frequency : Nat
  metadata : Option M

abbrev Postings (N M : Type) := OMap String (OMap String (PostingInfo N M))

/-- `DocumentStatsManager` -/
structure DocumentStats where
  lengths : OMap String Nat
  totalLength : Int
  documentCount : Nat

/-- The terms that are not prefixes, how many postings each has, and the expansions found so far. -/
structure Vocabulary where
  terms : List String
  refs : OMap String Nat
  fuzzyCache : OMap (String × Rat) (List String)

structure ResourceEngine (N M D : Type) where
  postings : Postings N M
  stats : DocumentStats
  docIds : OMap String (DocId N)
  docMetadata : OMap String D
  fieldNames : List String
  vocabulary : Vocabulary

variable {N M D : Type}

def createEngine : ResourceEngine N M D :=
  ⟨OMap.empty, ⟨OMap.empty, 0, 0⟩, OMap.empty, OMap.empty, [], ⟨[], OMap.empty, OMap.empty⟩⟩

/-- `set.add(x)` -/
def addToSet (xs : List String) (x : String) : List String := if x ∈ xs then xs else xs ++ [x]

def toKey (numberText : N → String) : DocId N → String
  | .str s => "s:" ++ s
  | .num n => "n:" ++ numberText n

/-! ## Statistics and vocabulary -/

namespace DocumentStats

def addDocument (st : DocumentStats) (docKey : String) (length : Nat) : DocumentStats :=
  match st.lengths.get docKey with
  | some existing =>
    { lengths := st.lengths.set docKey length
      totalLength := st.totalLength - existing + length
      documentCount := st.documentCount }
  | none =>
    { lengths := st.lengths.set docKey length
      totalLength := st.totalLength + length
      documentCount := st.documentCount + 1 }

def removeDocument (st : DocumentStats) (docKey : String) : DocumentStats :=
  match st.lengths.get docKey with
  | some existing =>
    { lengths := st.lengths.delete docKey
      totalLength := st.totalLength - existing
      documentCount := st.documentCount - 1 }
  | none => st

def averageLength (st : DocumentStats) : Rat :=
  if st.documentCount = 0 then 1 else st.totalLength / st.documentCount

end DocumentStats

namespace Vocabulary

def increment (v : Vocabulary) (term : String) : Vocabulary :=
  let next := (v.refs.get term).getD 0 + 1
  if next = 1 then
    { terms := addToSet v.terms term, refs := v.refs.set term next, fuzzyCache := OMap.empty }
  else { v with refs := v.refs.set term next }

def decrement (v : Vocabulary) (term : String) : Vocabulary :=
  if term = "" then v
  else
    match v.refs.get term with
    | none => v
    | some current =>
      if current ≤ 1 then
        { terms := v.terms.filter (· ≠ term)
          refs := v.refs.delete term
          fuzzyCache := if term ∈ v.terms then OMap.empty else v.fuzzyCache }
      else { v with refs := v.refs.set term (current - 1) }

end Vocabulary

/-! ## Index and remove -/

section
variable (s : Setup N M D)

def isPrefixPosting (metadata : Option M) : Bool := metadata.any s.pipeline.isPrefix

def upsertPosting (postings : Postings N M) (docKey : String) (docId : DocId N)
    (entry : Entry M) : Postings N M :=
  let docMap := (postings.get (postingKey entry.field entry.term)).getD OMap.empty
  postings.set (postingKey entry.field entry.term)
    (docMap.set docKey ⟨docId, entry.frequency, entry.metadata⟩)

/-- One term of a document; its field has been named, or is named now. -/
def addEntry (docId : DocId N) (engine : ResourceEngine N M D) (entry : Entry M) :
    ResourceEngine N M D :=
  { engine with
    fieldNames := addToSet engine.fieldNames entry.field
    postings := upsertPosting engine.postings (toKey s.numberText docId) docId entry
    vocabulary :=
      if isPrefixPosting s entry.metadata then engine.vocabulary
      else engine.vocabulary.increment entry.term }

def addDocToEngine (engine : ResourceEngine N M D) (doc : Document N D) : ResourceEngine N M D :=
  let length := totalLength s.pipeline doc.fields
  if length = 0 then engine
  else
    let docKey := toKey s.numberText doc.id
    (entriesOf s.pipeline doc.fields).foldl (addEntry s doc.id)
      { engine with
        stats := engine.stats.addDocument docKey length
        docIds := engine.docIds.set docKey doc.id
        docMetadata := doc.metadata.elim engine.docMetadata (engine.docMetadata.set docKey) }

/-- The postings of one key without the document; a key without postings is dropped. -/
def removePosting (docKey : String) (state : Postings N M × Vocabulary)
    (entry : String × OMap String (PostingInfo N M)) : Postings N M × Vocabulary :=
  let docMap := entry.2.delete docKey
  let postings := state.1.set entry.1 docMap
  (if docMap.entries = [] then postings.delete entry.1 else postings,
    match entry.2.get docKey with
    | some posting =>
      if isPrefixPosting s posting.metadata then state.2
      else state.2.decrement (keyTerm entry.1)
    | none => state.2.decrement "")

def removeDocFromEngine (engine : ResourceEngine N M D) (docId : DocId N) : ResourceEngine N M D :=
  let docKey := toKey s.numberText docId
  let (postings, vocabulary) := engine.postings.entries.foldl (removePosting s docKey)
    (engine.postings, engine.vocabulary)
  { postings := postings
    vocabulary := vocabulary
    stats := engine.stats.removeDocument docKey
    docIds := engine.docIds.delete docKey
    docMetadata := engine.docMetadata.delete docKey
    fieldNames := engine.fieldNames }

def index (engine : ResourceEngine N M D) (doc : Document N D) : ResourceEngine N M D :=
  addDocToEngine s (removeDocFromEngine s engine doc.id) doc

/-! ## Search -/

def fuzzyExpand (term : String) (maxDistance : Rat) (vocabulary : List String) : List String :=
  Levenshtein.fuzzyExpand (fun text => (s.lower text).toList) term (.finite maxDistance) vocabulary

/-- The cache holds a thousand expansions. -/
def getCachedFuzzyExpansion (v : Vocabulary) (term : String) (distance : Rat) :
    Vocabulary × List String :=
  match v.fuzzyCache.get (term, distance) with
  | some expansion => (v, expansion)
  | none =>
    let expansion := fuzzyExpand s term distance v.terms
    let cache := v.fuzzyCache.set (term, distance) expansion
    let cache :=
      if 1000 < cache.entries.length then
        match cache.entries with
        | first :: _ => cache.delete first.1
        | [] => cache
      else cache
    ({ v with fuzzyCache := cache }, expansion)

inductive Fuzzy where
  | off
  | on
  | distance (n : Rat)

def getFuzzyDistance : Fuzzy → Option Rat
  | .on => some 2
  | .distance n => if 0 < n then some (min n 3) else none
  | .off => none

/-- What a search asks for, with the defaults of the configuration put in. -/
structure SearchParams where
  query : String
  fields : Option (List String)
  limit : Option Nat
  prefixes : Bool
  fuzzy : Fuzzy
  fieldBoosts : OMap String Rat
  namespaceFilter : List String
  regionFilter : List String

structure QueryToken where
  field : String
  term : String
  boost : Rat

/-- The terms of the vocabulary that one token of the query stands for. -/
def termsOf (params : SearchParams) (v : Vocabulary) (value : String) :
    Vocabulary × List (String × Rat) :=
  if params.prefixes then
    (v, (v.terms.filter fun vocabTerm => value.toList.isPrefixOf vocabTerm.toList).map
      fun vocabTerm => (vocabTerm, if vocabTerm = value then 1 else 9 / 10))
  else
    match getFuzzyDistance params.fuzzy with
    | some distance =>
      let (v, expansion) := getCachedFuzzyExpansion s v value distance
      (v, expansion.map fun term => (term, if term = value then 1 else 4 / 5))
    | none => (v, [(value, 1)])

def insertToken (field : String) (tokenMap : OMap String QueryToken) (term : String × Rat) :
    OMap String QueryToken :=
  match tokenMap.get (postingKey field term.1) with
  | some _ => tokenMap
  | none => tokenMap.set (postingKey field term.1) ⟨field, term.1, term.2⟩

def queryValues (field query : String) : List String :=
  ((s.pipeline.run field query).filter fun token => !isPrefixPosting s token.metadata).map
    Token.value

def addQueryToken (params : SearchParams) (field : String)
    (state : Vocabulary × OMap String QueryToken) (value : String) :
    Vocabulary × OMap String QueryToken :=
  let (v, terms) := termsOf s params state.1 value
  (v, terms.foldl (insertToken field) state.2)

def buildQueryTokens (params : SearchParams) (fields : List String) (v : Vocabulary) :
    Vocabulary × OMap String QueryToken :=
  fields.foldl (fun state field =>
    (queryValues s field params.query).foldl (addQueryToken s params field) state)
    (v, OMap.empty)

def computeDefaultIdf (docFrequency : Nat) : Rat :=
  if docFrequency = 0 then 0 else s.log (1 + 1 / docFrequency)

/-- The contribution of a posting, with `k1 = 1.2`, `b = 0.75` and `d = 0.5`. -/
def contribution (docFrequency : Nat) (tf docLength average : Rat) (metadata : Option M) : Rat :=
  let norm := 1 - 3 / 4 + 3 / 4 * docLength / max average 1
  let score := computeDefaultIdf s docFrequency *
    (1 / 2 + ((6 / 5 + 1) * tf) / (6 / 5 * norm + tf))
  if isPrefixPosting s metadata then score * (7 / 10) else score

/-- The postings of a query token, each with what it adds to the score of its document. -/
def contributions (engine : ResourceEngine N M D) (params : SearchParams) (token : QueryToken) :
    List (String × Rat) :=
  match engine.postings.get (postingKey token.field token.term) with
  | none => []
  | some docMap =>
    let average := max engine.stats.averageLength 1
    let fieldBoost := (params.fieldBoosts.get token.field).getD 1
    docMap.entries.map fun e =>
      (e.1, contribution s docMap.entries.length (e.2.frequency * token.boost * fieldBoost)
        (((engine.stats.lengths.get e.1).map fun n => (n : Rat)).getD average) average
        e.2.metadata)

/-- Higher scores first, ties by the key of the document. -/
def ranksBefore (a b : String × Rat) : Prop := b.2 < a.2 ∨ (a.2 = b.2 ∧ a.1 ≤ b.1)

instance : DecidableRel ranksBefore := fun a b =>
  inferInstanceAs (Decidable (b.2 < a.2 ∨ (a.2 = b.2 ∧ a.1 ≤ b.1)))

def matchesMetadataFilters (engine : ResourceEngine N M D) (params : SearchParams)
    (docKey : String) : Bool :=
  let metadata := engine.docMetadata.get docKey
  (params.namespaceFilter.isEmpty ||
    metadata.any fun m => s.metadataText m "__ns" ∈ params.namespaceFilter) &&
  (params.regionFilter.isEmpty ||
    metadata.any fun m => s.metadataText m "__region" ∈ params.regionFilter)

/-- A document that is found under no id is shown by its key. -/
inductive Found (N : Type) where
  | id (docId : DocId N)
  | key (docKey : String)

def rank (engine : ResourceEngine N M D) (params : SearchParams) (tokens : List QueryToken) :
    List (Found N) :=
  let scores := (tokens.flatMap (contributions s engine params)).foldl
    (fun scores c => scores.modify c.1 0 (· + c.2)) (OMap.empty : OMap String Rat)
  let scored := scores.entries.insertionSort ranksBefore
  ((scored.filter fun e => matchesMetadataFilters s engine params e.1).take
    (max 1 (params.limit.getD 10))).map
    fun e => ((engine.docIds.get e.1).map Found.id).getD (.key e.1)

def search (engine : ResourceEngine N M D) (params : SearchParams) :
    ResourceEngine N M D × List (Found N) :=
  let fields := params.fields.getD engine.fieldNames
  let (vocabulary, tokenMap) := buildQueryTokens s params fields engine.vocabulary
  ({ engine with vocabulary := vocabulary }, rank s engine params tokenMap.values)

/-! ## Runs -/

inductive Action (N D : Type) where
  | index (doc : Document N D)
  | remove (id : DocId N)
  | search (params : SearchParams)

def step (engine : ResourceEngine N M D) : Action N D → ResourceEngine N M D
  | .index doc => index s engine doc
  | .remove id => removeDocFromEngine s engine id
  | .search params => (search s engine params).1

end

end SuperFunctions.SearchFn.MemoryIndex

/-!
# The vocabulary counts its postings

Counting terms up and down keeps the vocabulary the set of terms with a count, and the expansions
found so far those of the vocabulary as it is.
-/
namespace SuperFunctions.SearchFn.VocabularyCounts

open Lib.OrderedMap MemoryIndex List

variable {N M D : Type} {s : Setup N M D}

/-- The vocabulary of the terms that `count` counts. -/
structure Counts (s : Setup N M D) (v : Vocabulary) (count : String → Nat) : Prop where
  refs : ∀ term, v.refs.get term = if count term = 0 then none else some (count term)
  terms : ∀ term, term ∈ v.terms ↔ count term ≠ 0
  nodup : v.terms.Nodup
  cache : ∀ term distance expansion, v.fuzzyCache.get (term, distance) = some expansion →
    expansion = fuzzyExpand s term distance v.terms

theorem counts_empty : Counts s ⟨[], OMap.empty, OMap.empty⟩ fun _ => 0 where
  refs _ := rfl
  terms term := by simp
  nodup := nodup_nil
  cache _ _ _ h := by cases h

variable {v : Vocabulary} {count : String → Nat}

theorem Counts.congr {count' : String → Nat} (h : Counts s v count)
    (heq : ∀ term, count term = count' term) : Counts s v count' := by
  have hfun : count = count' := funext heq
  rwa [← hfun]

theorem mem_addToSet (xs : List String) (x y : String) : y ∈ addToSet xs x ↔ y ∈ xs ∨ y = x := by
  rw [addToSet]
  split_ifs with hx
  · constructor
    · exact Or.inl
    · rintro (hy | rfl)
      · exact hy
      · exact hx
  · rw [mem_append, mem_singleton]

theorem nodup_addToSet {xs : List String} (h : xs.Nodup) (x : String) : (addToSet xs x).Nodup := by
  rw [addToSet]
  split_ifs with hx
  · exact h
  · refine nodup_append'.mpr ⟨h, nodup_singleton x, ?_⟩
    rwa [disjoint_singleton]

section

variable (h : Counts s v count)
include h

theorem counts_increment (term : String) :
    Counts s (v.increment term) fun t => if t = term then count t + 1 else count t := by
  have hnext : (v.refs.get term).getD 0 = count term := by
    rw [h.refs]
    split_ifs with hzero
    · exact hzero.symm
    · rfl
  rw [Vocabulary.increment, hnext]
  have hrefs : ∀ t, (v.refs.set term (count term + 1)).get t =
      if (if t = term then count t + 1 else count t) = 0 then none
      else some (if t = term then count t + 1 else count t) := by
    intro t
    rw [OMap.get_set]
    split_ifs with ht hzero hzero
    · omega
    · rw [ht]
    · rw [h.refs, if_pos hzero]
    · rw [h.refs, if_neg hzero]
  split_ifs with hone
  · refine ⟨hrefs, fun t => ?_, nodup_addToSet h.nodup term, fun _ _ _ hget => by cases hget⟩
    rw [mem_addToSet, h.terms]
    split_ifs with ht
    · simp [ht]
    · simp [ht]
  · refine ⟨hrefs, fun t => ?_, h.nodup, h.cache⟩
    rw [h.terms]
    split_ifs with ht
    · rw [ht]
      omega
    · rfl

theorem counts_decrement {term : String} (hterm : term ≠ "") :
    Counts s (v.decrement term) fun t => if t = term then count t - 1 else count t := by
  rw [Vocabulary.decrement, if_neg hterm, h.refs]
  by_cases hzero : count term = 0
  · rw [if_pos hzero]
    refine h.congr fun t => ?_
    split_ifs with ht
    · rw [ht, hzero]
    · rfl
  · rw [if_neg hzero]
    dsimp only
    split_ifs with hone hin
    · refine ⟨fun t => ?_, fun t => ?_, h.nodup.filter _, fun _ _ _ hget => by cases hget⟩
      · rw [OMap.get_delete]
        split_ifs with ht hleft hpos
        · rfl
        · rw [ht] at hleft
          omega
        · rw [h.refs, if_pos hpos]
        · rw [h.refs, if_neg hpos]
      · rw [mem_filter, h.terms, decide_eq_true_iff]
        split_ifs with ht
        · simp [ht]
          omega
        · simp [ht]
    · exact absurd ((h.terms term).mpr hzero) hin
    refine ⟨fun t => ?_, fun t => ?_, h.nodup, h.cache⟩
    · rw [OMap.get_set]
      split_ifs with ht hleft hpos
      · rw [ht] at hleft
        omega
      · rw [ht]
      · rw [h.refs, if_pos hpos]
      · rw [h.refs, if_neg hpos]
    · rw [h.terms]
      split_ifs with ht
      · rw [ht]
        omega
      · rfl

theorem counts_foldl_increment (terms : List String) :
    Counts s (terms.foldl Vocabulary.increment v) fun t => count t + terms.count t := by
  induction terms generalizing v count with
  | nil => exact h
  | cons term rest ih =>
    refine (ih (counts_increment h term)).congr fun t => ?_
    rw [count_cons]
    by_cases ht : t = term
    · simp only [ht, beq_self_eq_true, if_true]
      omega
    · have hne : (term == t) = false := by simpa using Ne.symm ht
      simp only [if_neg ht, hne]
      rfl

theorem counts_foldl_decrement {terms : List String} (hterms : ∀ term ∈ terms, term ≠ "") :
    Counts s (terms.foldl Vocabulary.decrement v) fun t => count t - terms.count t := by
  induction terms generalizing v count with
  | nil => exact h
  | cons term rest ih =>
    have hfirst := counts_decrement h (hterms term mem_cons_self)
    refine (ih hfirst fun t ht => hterms t (mem_cons_of_mem _ ht)).congr fun t => ?_
    rw [count_cons]
    by_cases ht : t = term
    · simp only [ht, beq_self_eq_true, if_true]
      omega
    · have hne : (term == t) = false := by simpa using Ne.symm ht
      simp only [if_neg ht, hne]
      rfl

end

end SuperFunctions.SearchFn.VocabularyCounts
