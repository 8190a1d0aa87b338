import SuperFunctions.Lib.Views
import SuperFunctions.SearchFn.MemoryIndex

/-!
# The search index of the client

An index that is held in memory: documents are added, replaced and removed, the whole of it is
exported as a snapshot and imported again. Scores are exact numbers. A document is kept under
`docIdKey` of its id, which is another one for another id.
-/
namespace SuperFunctions.SearchFn.InMemorySearch

open Lib.OrderedMap Ingest MemoryIndex

/-- What an instance is made with, and what it takes from the language. -/
structure Options (N M : Type) where
  fields : List String
  setup : Setup N M Unit
  pipelineWithoutNGrams : Pipeline M
  trim : String → String
  sortString : String → String → Ordering

structure PostingBucket (N M : Type) [DecidableEq N] where
  field : String
  term : String
  documents : OMap (DocId N) (PostingInfo N M)

/-- `DocumentStatsManager` -/
structure StatsManager (N : Type) [DecidableEq N] where
  lengths : OMap (DocId N) Nat
  totalLength : Int
  documentCount : Nat

abbrev Buckets (N M : Type) [DecidableEq N] := OMap String (PostingBucket N M)

/-- The state of an `InMemorySearchFn` whose documents have payloads in `P`. -/
structure InMemorySearchFn (N M P : Type) [DecidableEq N] where
  statsManager : StatsManager N
  postings : Buckets N M
  documents : OMap (DocId N) P
  vocabulary : List String
  fuzzyCache : OMap (String × Rat) (List String)

structure InMemoryAddDocumentInput (N P : Type) where
  id : DocId N
  fields : OMap String String
  store : P

/-- What `exportSnapshot` gives: the buckets with their postings, the lengths, the payloads and the
vocabulary. -/
structure Snapshot (N M P : Type) where
  postings : List (String × String × List (PostingInfo N M))
  stats : List (DocId N × Nat)
  documents : List (DocId N × P)
  vocabulary : List String

variable {N M P : Type} [DecidableEq N]

/-! ## Statistics -/

namespace StatsManager

def empty : StatsManager N := ⟨OMap.empty, 0, 0⟩

def addDocument (st : StatsManager N) (docId : DocId N) (totalLength : Nat) : StatsManager N :=
  match st.lengths.get docId with
  | some existing =>
    { lengths := st.lengths.set docId totalLength
      totalLength := st.totalLength - existing + totalLength
      documentCount := st.documentCount }
  | none =>
    { lengths := st.lengths.set docId totalLength
      totalLength := st.totalLength + totalLength
      documentCount := st.documentCount + 1 }

def removeDocument (st : StatsManager N) (docId : DocId N) : StatsManager N :=
  match st.lengths.get docId with
  | some existing =>
    { lengths := st.lengths.delete docId
      totalLength := st.totalLength - existing
      documentCount := st.documentCount - 1 }
  | none => st

def getAverageLength (st : StatsManager N) : Rat :=
  if st.documentCount = 0 then 1 else st.totalLength / st.documentCount

def load (entries : List (DocId N × Nat)) : StatsManager N :=
  entries.foldl (fun st e => st.addDocument e.1 e.2) empty

end StatsManager

/-! ## Adding and removing -/

def postingBucketKey (field term : String) : String := field ++ "\u0000" ++ term

def docIdKey (o : Options N M) : DocId N → String
  | .str s => "s:" ++ s
  | .num n => "n:" ++ o.setup.numberText n

/-- `String(docId)` -/
def idText (o : Options N M) : DocId N → String
  | .str s => s
  | .num n => o.setup.numberText n

def newInstance : InMemorySearchFn N M P :=
  ⟨StatsManager.empty, OMap.empty, OMap.empty, [], OMap.empty⟩

/-- `posting.metadata?.isPrefix !== true` -/
def isOwn (o : Options N M) (metadata : Option M) : Bool := !isPrefixPosting o.setup metadata

def putPosting (postings : Buckets N M) (docId : DocId N) (entry : Entry M) : Buckets N M :=
  let key := postingBucketKey entry.field entry.term
  let bucket := (postings.get key).getD ⟨entry.field, entry.term, OMap.empty⟩
  postings.set key { bucket with
    documents := bucket.documents.set docId ⟨docId, entry.frequency, entry.metadata⟩ }

def addPosting (o : Options N M) (docId : DocId N) (engine : InMemorySearchFn N M P)
    (entry : Entry M) : InMemorySearchFn N M P :=
  { engine with
    postings := putPosting engine.postings docId entry
    vocabulary :=
      if isOwn o entry.metadata then addToSet engine.vocabulary entry.term else engine.vocabulary
    fuzzyCache := if isOwn o entry.metadata then OMap.empty else engine.fuzzyCache }

def hasRemainingVocabularyEntry (o : Options N M) (postings : Buckets N M) (term : String) :
    Bool :=
  postings.values.any fun bucket =>
    bucket.term = term && bucket.documents.values.any fun posting => isOwn o posting.metadata

/-- The postings, the vocabulary and the cache while a document is removed. -/
abbrev Removal (N M : Type) [DecidableEq N] :=
  Buckets N M × List String × OMap (String × Rat) (List String)

/-- One turn of the loop over the buckets. -/
def removePosting (o : Options N M) (docId : DocId N) (state : Removal N M)
    (entry : String × PostingBucket N M) : Removal N M :=
  let (postings, vocabulary, fuzzyCache) := state
  let documents := entry.2.documents.delete docId
  if documents.entries = [] then
    let postings := postings.delete entry.1
    if hasRemainingVocabularyEntry o postings entry.2.term then (postings, vocabulary, fuzzyCache)
    else (postings, vocabulary.filter (· ≠ entry.2.term), OMap.empty)
  else (postings.set entry.1 { entry.2 with documents := documents }, vocabulary, fuzzyCache)

def remove (o : Options N M) (engine : InMemorySearchFn N M P) (docId : DocId N) :
    InMemorySearchFn N M P :=
  let (postings, vocabulary, fuzzyCache) := engine.postings.entries.foldl (removePosting o docId)
    (engine.postings, engine.vocabulary, engine.fuzzyCache)
  { statsManager := engine.statsManager.removeDocument docId
    postings := postings
    documents := engine.documents.delete docId
    vocabulary := vocabulary
    fuzzyCache := fuzzyCache }

def add (o : Options N M) (engine : InMemorySearchFn N M P)
    (input : InMemoryAddDocumentInput N P) : InMemorySearchFn N M P :=
  let engine :=
    if (engine.documents.get input.id).isSome then remove o engine input.id else engine
  (entriesOf o.setup.pipeline input.fields).foldl (addPosting o input.id)
    { engine with
      statsManager :=
        engine.statsManager.addDocument input.id (totalLength o.setup.pipeline input.fields)
      documents := engine.documents.set input.id input.store }

def getDocument (engine : InMemorySearchFn N M P) (docId : DocId N) : Option P :=
  engine.documents.get docId

def clear (_ : InMemorySearchFn N M P) : InMemorySearchFn N M P :=
  { statsManager := StatsManager.load []
    postings := OMap.empty
    documents := OMap.empty
    vocabulary := []
    fuzzyCache := OMap.empty }

/-! ## Snapshots -/

section
variable (o : Options N M)

/-- `sort((left, right) => sortString(text(left), text(right)))` -/
def sortBy {α : Type} (text : α → String) (xs : List α) : List α :=
  xs.insertionSort fun a b => o.sortString (text a) (text b) ≠ .gt

def exportBucket (bucket : PostingBucket N M) : String × String × List (PostingInfo N M) :=
  (bucket.field, bucket.term,
    sortBy o (fun posting => docIdKey o posting.docId) bucket.documents.values)

def exportSnapshot (engine : InMemorySearchFn N M P) : Snapshot N M P where
  postings := (engine.postings.values.map (exportBucket o)).insertionSort fun a b =>
    (o.sortString a.1 b.1).then (o.sortString a.2.1 b.2.1) ≠ .gt
  stats := sortBy o (fun e => idText o e.1) engine.statsManager.lengths.entries
  documents := sortBy o (fun e => idText o e.1) engine.documents.entries
  vocabulary := sortBy o id engine.vocabulary

def importBucket (postings : Buckets N M) (posting : String × String × List (PostingInfo N M)) :
    Buckets N M :=
  postings.set (postingBucketKey posting.1 posting.2.1)
    { field := posting.1
      term := posting.2.1
      documents := posting.2.2.foldl (fun m entry => m.set entry.docId entry) OMap.empty }

def importSnapshot (engine : InMemorySearchFn N M P) (snapshot : Snapshot N M P) :
    InMemorySearchFn N M P :=
  let cleared := clear engine
  { statsManager := StatsManager.load snapshot.stats
    postings := snapshot.postings.foldl importBucket cleared.postings
    documents := snapshot.documents.foldl (fun m document => m.set document.1 document.2)
      cleared.documents
    vocabulary := snapshot.vocabulary.foldl addToSet cleared.vocabulary
    fuzzyCache := cleared.fuzzyCache }

/-! ## Searching -/

structure SearchOptions where
  fields : List String
  limit : Option Int
  fuzzy : Fuzzy
  includeStored : Bool

structure ResultItem (N P : Type) where
  docId : DocId N
  score : Rat
  document : Option P

def getFuzzyDistance : Fuzzy → Option Rat
  | .on => some 2
  | .distance n => if 0 < n then some n else none
  | .off => none

abbrev FuzzyCache := OMap (String × Rat) (List String)

def getCachedFuzzyExpansion (vocabulary : List String) (cache : FuzzyCache) (term : String)
    (distance : Rat) : FuzzyCache × List String :=
  match cache.get (term, distance) with
  | some cached => (cache, cached)
  | none =>
    let expanded := fuzzyExpand o.setup term distance vocabulary
    (cache.set (term, distance) expanded, expanded)

/-- `queryTokens.set(key, token)` for a key that is not there yet. -/
def offerToken (tokens : OMap String QueryToken) (token : QueryToken) : OMap String QueryToken :=
  match tokens.get (postingBucketKey token.field token.term) with
  | some _ => tokens
  | none => tokens.set (postingBucketKey token.field token.term) token

/-- A token of the query and, with a fuzzy distance, the terms close to it. -/
def addQueryToken (vocabulary : List String) (distance : Option Rat) (field : String)
    (state : FuzzyCache × OMap String QueryToken) (value : String) :
    FuzzyCache × OMap String QueryToken :=
  let tokens := offerToken state.2 ⟨field, value, 1⟩
  match distance with
  | none => (state.1, tokens)
  | some distance =>
    let (cache, expanded) := getCachedFuzzyExpansion o vocabulary state.1 value distance
    (cache, expanded.foldl (fun tokens fuzzyTerm =>
      offerToken tokens ⟨field, fuzzyTerm, if fuzzyTerm = value then 1 else 4 / 5⟩) tokens)

def queryValues (field query : String) : List String :=
  (o.pipelineWithoutNGrams.run field query).map Token.value

def buildQueryTokens (engine : InMemorySearchFn N M P) (query : String)
    (options : SearchOptions) : FuzzyCache × OMap String QueryToken :=
  let fields := if options.fields = [] then o.fields else options.fields
  fields.foldl (fun state field =>
    (queryValues o field query).foldl
      (addQueryToken o engine.vocabulary (getFuzzyDistance options.fuzzy) field) state)
    (engine.fuzzyCache, OMap.empty)

/-- What the postings of a token add to the scores of their documents. -/
def contributions (engine : InMemorySearchFn N M P) (token : QueryToken) : List (DocId N × Rat) :=
  match engine.postings.get (postingBucketKey token.field token.term) with
  | none => []
  | some bucket =>
    let average := engine.statsManager.getAverageLength
    bucket.documents.values.map fun posting =>
      (posting.docId, contribution o.setup bucket.documents.entries.length
        (posting.frequency * token.boost)
        (((engine.statsManager.lengths.get posting.docId).map fun n => (n : Rat)).getD average)
        average posting.metadata)

/-- Higher scores first, ties by the text of the id. -/
def scoredLe (a b : DocId N × Rat) : Prop :=
  b.2 < a.2 ∨ (a.2 = b.2 ∧ idText o a.1 ≤ idText o b.1)

instance : DecidableRel (scoredLe o) := fun a b =>
  inferInstanceAs (Decidable (b.2 < a.2 ∨ (a.2 = b.2 ∧ idText o a.1 ≤ idText o b.1)))

/-- `scorePostings` -/
def scorePostings (engine : InMemorySearchFn N M P) (tokens : List QueryToken) :
    List (DocId N × Rat) :=
  ((OMap.empty : OMap (DocId N) Rat).addAll
    (tokens.flatMap (contributions o engine))).entries.insertionSort (scoredLe o)

def searchDetailed (engine : InMemorySearchFn N M P) (query : String) (options : SearchOptions) :
    InMemorySearchFn N M P × List (ResultItem N P) :=
  let normalizedQuery := o.trim query
  if normalizedQuery = "" then (engine, [])
  else
    let (cache, tokens) := buildQueryTokens o engine normalizedQuery options
    ({ engine with fuzzyCache := cache },
      ((scorePostings o engine tokens.values).take (options.limit.getD 10).toNat).map fun entry =>
        { docId := entry.1
          score := entry.2
          document := if options.includeStored then engine.documents.get entry.1 else none })

end

end SuperFunctions.SearchFn.InMemorySearch
