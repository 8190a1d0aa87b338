import SuperFunctions.Lib.Processes
import SuperFunctions.SearchFn.Ingest

/-!
# The IndexedDB adapter of the search

One resource of the adapter: the chunks and the terms of documents that are stored, and the
posting maps, the cache of terms and the terms of documents that an open engine holds.
-/
namespace SuperFunctions.SearchFn.IndexedDb

open Lib.OrderedMap Ingest

/-- A field and a term. -/
abbrev Pair := String × String

structure PostingInfo (M : Type) where
  frequency : Nat
  metadata : Option M
  deriving DecidableEq

/-- The postings of one pair under the ids of their documents. -/
abbrev TermMap (M : Type) := OMap String (PostingInfo M)

/-- A document under the text of its id. -/
structure Document where
  id : String
  fields : OMap String String

/-! ## The cache of terms -/

/-- The entries, the one that was used last first. -/
structure LruCache (V : Type) where
  entries : List (String × V)
  maxEntries : Nat

namespace LruCache

variable {V : Type}

def get (c : LruCache V) (key : String) : Option V × LruCache V :=
  match c.entries.find? (fun e => e.1 = key) with
  | some e => (some e.2, { c with entries := e :: c.entries.filter fun e => e.1 ≠ key })
  | none => (none, c)

def set (c : LruCache V) (key : String) (value : V) : LruCache V :=
  let entries := (key, value) :: c.entries.filter fun e => e.1 ≠ key
  { c with entries :=
      if c.maxEntries < entries.length ∧ ∀ e ∈ c.entries, e.1 ≠ key then entries.dropLast
      else entries }

def delete (c : LruCache V) (key : String) : LruCache V :=
  { c with entries := c.entries.filter fun e => e.1 ≠ key }

def clear (c : LruCache V) : LruCache V := { c with entries := [] }

end LruCache

/-! ## Storage and engine -/

/-- What is stored: the chunk of each pair, decoded, and the snapshot of the terms of documents. -/
structure Storage (M : Type) where
  chunks : OMap Pair (TermMap M)
  docTerms : OMap String (List Pair)

structure Engine (M : Type) where
  postings : OMap Pair (TermMap M)
  dirtyPostings : List Pair
  termCache : LruCache (TermMap M)
  docTerms : OMap String (List Pair)

/-- The engine is there between the first call after the adapter was made and its disposal. -/
structure Adapter (M : Type) where
  storage : Storage M
  engine : Option (Engine M)

inductive Action where
  | index (documents : List Document)
  | remove (ids : List String)
  | search (tokens : List Pair)
  | clear
  | reopen

variable {M : Type}

def cacheKey (pair : Pair) : String := pair.1 ++ ":" ++ pair.2

/-- `set.add(x)` -/
def addToSet (xs : List Pair) (x : Pair) : List Pair := if x ∈ xs then xs else xs ++ [x]

/-- The object that is stored cannot hold the id `__proto__`. -/
def snapshotDocTerms (docTerms : OMap String (List Pair)) : OMap String (List Pair) :=
  docTerms.filterEntries fun e => e.1 ≠ "__proto__"

/-- `ensureOpen` -/
def openEngine (maxEntries : Nat) (storage : Storage M) : Engine M :=
  ⟨OMap.empty, [], ⟨[], maxEntries⟩, storage.docTerms⟩

/-! ## Postings in memory -/

def loadTermFromDb (storage : Storage M) (engine : Engine M) (pair : Pair) : Engine M :=
  match engine.postings.get pair with
  | some _ => engine
  | none =>
    { engine with
      postings := engine.postings.set pair ((storage.chunks.get pair).getD OMap.empty) }

/-- One term of a document that is removed. -/
def removeTerm (storage : Storage M) (docId : String) (engine : Engine M) (pair : Pair) :
    Engine M :=
  let engine := loadTermFromDb storage engine pair
  match engine.postings.get pair with
  | some termMap =>
    { engine with
      postings := engine.postings.set pair (termMap.delete docId)
      dirtyPostings := addToSet engine.dirtyPostings pair }
  | none => engine

def removeDocById (storage : Storage M) (engine : Engine M) (docId : String) : Engine M :=
  match engine.docTerms.get docId with
  | none => engine
  | some terms =>
    let engine := terms.foldl (removeTerm storage docId) engine
    { engine with docTerms := engine.docTerms.delete docId }

def upsertPosting (docId : String) (engine : Engine M) (entry : Entry M) : Engine M :=
  let pair := (entry.field, entry.term)
  let termMap := (engine.postings.get pair).getD OMap.empty
  { engine with
    postings := engine.postings.set pair (termMap.set docId ⟨entry.frequency, entry.metadata⟩)
    dirtyPostings := addToSet engine.dirtyPostings pair }

def termsOf (entries : List (Entry M)) : List Pair :=
  entries.map fun entry => (entry.field, entry.term)

section
variable (p : Pipeline M)

/-- One document of `index`. -/
def putDocument (storage : Storage M) (engine : Engine M) (doc : Document) : Engine M :=
  let engine := removeDocById storage engine doc.id
  if totalLength p doc.fields = 0 then engine
  else
    let entries := entriesOf p doc.fields
    let engine := entries.foldl (upsertPosting doc.id) engine
    { engine with docTerms := engine.docTerms.set doc.id (termsOf entries) }

end

/-! ## Writing back -/

def updateTermCache (engine : Engine M) : Engine M :=
  { engine with termCache := engine.dirtyPostings.foldl (fun cache pair =>
      match engine.postings.get pair with
      | some termMap =>
        if termMap.entries = [] then cache.delete (cacheKey pair)
        else cache.set (cacheKey pair) termMap
      | none => cache.delete (cacheKey pair)) engine.termCache }

/-- A dirty pair without postings loses its chunk and its map, any other is stored. -/
def persistPosting (state : OMap Pair (TermMap M) × OMap Pair (TermMap M)) (pair : Pair) :
    OMap Pair (TermMap M) × OMap Pair (TermMap M) :=
  match state.2.get pair with
  | some termMap =>
    if termMap.entries = [] then (state.1.delete pair, state.2.delete pair)
    else (state.1.set pair termMap, state.2)
  | none => (state.1.delete pair, state.2)

def persistAll (storage : Storage M) (engine : Engine M) : Adapter M :=
  let (chunks, postings) :=
    engine.dirtyPostings.foldl persistPosting (storage.chunks, engine.postings)
  { storage := ⟨chunks, snapshotDocTerms engine.docTerms⟩
    engine := some { engine with postings := postings, dirtyPostings := [] } }

/-! ## Calls -/

/-- A token of a query reads the cache, or the chunk, which goes into the cache. -/
def lookUpToken (storage : Storage M) (engine : Engine M) (pair : Pair) : Engine M :=
  match engine.termCache.get (cacheKey pair) with
  | (some _, cache) => { engine with termCache := cache }
  | (none, _) =>
    match storage.chunks.get pair with
    | some chunk => { engine with termCache := engine.termCache.set (cacheKey pair) chunk }
    | none => engine

def step (p : Pipeline M) (maxEntries : Nat) (adapter : Adapter M) (action : Action) :
    Option (Adapter M) :=
  let storage := adapter.storage
  let engine := adapter.engine.getD (openEngine maxEntries storage)
  match action with
  | .index documents =>
    let engine := documents.foldl (putDocument p storage) engine
    some (persistAll storage (updateTermCache engine))
  | .remove ids =>
    let engine := ids.foldl (removeDocById storage) engine
    some (persistAll storage { engine with termCache := engine.termCache.clear })
  | .search tokens => some ⟨storage, some (tokens.foldl (lookUpToken storage) engine)⟩
  | .clear =>
    some ⟨⟨OMap.empty, OMap.empty⟩, some ⟨OMap.empty, [], engine.termCache.clear, OMap.empty⟩⟩
  | .reopen => some ⟨storage, none⟩

/-- A resource of which nothing is stored. -/
def fresh : Adapter M := ⟨⟨OMap.empty, OMap.empty⟩, none⟩

/-! ## What is meant -/

/-- The entries of the latest version of each document that has any. -/
abbrev Documents (M : Type) := OMap String (List (Entry M))

def putLatest (p : Pipeline M) (docs : Documents M) (doc : Document) : Documents M :=
  if totalLength p doc.fields = 0 then docs.delete doc.id
  else (docs.delete doc.id).set doc.id (entriesOf p doc.fields)

def latest (p : Pipeline M) (docs : Documents M) : Action → Option (Documents M)
  | .index documents => some (documents.foldl (putLatest p) docs)
  | .remove ids => some (ids.foldl (fun docs id => docs.delete id) docs)
  | .clear => some OMap.empty
  | _ => some docs

/-- The posting of a document under a pair. -/
def expected (docs : Documents M) (pair : Pair) (id : String) : Option (PostingInfo M) :=
  (docs.get id).bind fun entries =>
    (entries.find? fun entry => (entry.field, entry.term) = pair).map fun entry =>
      ⟨entry.frequency, entry.metadata⟩

/-- A map with the postings that are expected. -/
def Exact (docs : Documents M) (pair : Pair) (termMap : TermMap M) : Prop :=
  ∀ id, termMap.get id = expected docs pair id

/-- On every way to a pair stand the postings of the documents that are indexed. -/
structure Complete (adapter : Adapter M) (docs : Documents M) : Prop where
  stored : ∀ pair, Exact docs pair ((adapter.storage.chunks.get pair).getD OMap.empty)
  inMemory : ∀ engine ∈ adapter.engine, ∀ pair, ∀ termMap ∈ engine.postings.get pair,
    Exact docs pair termMap
  cached : ∀ engine ∈ adapter.engine, ∀ pair,
    ∀ termMap ∈ (engine.termCache.get (cacheKey pair)).1, Exact docs pair termMap

end SuperFunctions.SearchFn.IndexedDb
