import Mathlib.Algebra.Order.Ring.Rat
import Mathlib.Data.String.Basic
import SuperFunctions.SearchFn.IndexInvariant
import SuperFunctions.SearchFn.QueryTokens

/-!
# Searches tell the documents

Two resources that hold the same documents answer every search in the same way, in whatever order
their maps were filled.
-/
namespace SuperFunctions.SearchFn.SearchResults

open Lib.OrderedMap PostingKey MemoryIndex PostingTables IndexInvariant QueryTokens

variable {N M D : Type} {s : Setup N M D} {engine engine' : ResourceEngine N M D}
  {docs : Documents N D}

/-! ## A search changes the cache alone -/

theorem represents_search (h : Represents s engine docs) (params : SearchParams) :
    Represents s (search s engine params).1 docs := by
  obtain ⟨hkeeps, -⟩ := buildQueryTokens_eq params (params.fields.getD engine.fieldNames)
    h.vocabulary.cache
  refine { h with vocabulary := ⟨fun term => ?_, fun term => ?_, ?_, hkeeps.cache⟩ }
  · exact (congrArg (fun refs => OMap.get refs term) hkeeps.refs).trans (h.vocabulary.refs term)
  · have hterms := hkeeps.terms
    show term ∈ (buildQueryTokens s params (params.fields.getD engine.fieldNames)
      engine.vocabulary).1.terms ↔ _
    rw [hterms]
    exact h.vocabulary.terms term
  · have hnodup := h.vocabulary.nodup
    rwa [← hkeeps.terms] at hnodup

/-! ## What is found -/

/-- The tokens that a search looks up. -/
def tokenMap (s : Setup N M D) (engine : ResourceEngine N M D) (params : SearchParams) :
    OMap String QueryToken :=
  ((params.fields.getD engine.fieldNames).flatMap
    (pairs s params engine.vocabulary.terms)).foldl insertPair OMap.empty

theorem search_eq (h : Represents s engine docs) (params : SearchParams) :
    (search s engine params).2 = rank s engine params (tokenMap s engine params).values := by
  obtain ⟨-, htokens⟩ := buildQueryTokens_eq params (params.fields.getD engine.fieldNames)
    h.vocabulary.cache
  rw [tokenMap, ← htokens]
  rfl

theorem get_tokenMap (params : SearchParams) (key : String) :
    (tokenMap s engine params).get key =
      ((((params.fields.getD engine.fieldNames).flatMap
        (pairs s params engine.vocabulary.terms)).find? fun pair => pairKey pair = key).map
        pairToken) := by
  rw [tokenMap, get_foldl_insertPair]
  rfl

variable {key : String} {params : SearchParams} {token : QueryToken}

theorem key_of_token (h : (tokenMap s engine params).get key = some token) :
    postingKey token.field token.term = key := by
  rw [get_tokenMap] at h
  obtain ⟨pair, hfind, rfl⟩ := Option.map_eq_some_iff.mp h
  have hkey := List.find?_some hfind
  exact of_decide_eq_true hkey

theorem terms_perm (h : Represents s engine docs) (h' : Represents s engine' docs) :
    engine.vocabulary.terms.Perm engine'.vocabulary.terms := by
  rw [List.perm_ext_iff_of_nodup h.vocabulary.nodup h'.vocabulary.nodup]
  intro term
  exact (h.vocabulary.terms term).trans (h'.vocabulary.terms term).symm

theorem lookup_agree (h : Represents s engine docs) (h' : Represents s engine' docs)
    (key k : String) : lookup engine.postings key k = lookup engine'.postings key k :=
  (h.postings key k).trans (h'.postings key k).symm

theorem get_postings_none (h : Represents s engine docs) (h' : Represents s engine' docs)
    (hnone : engine.postings.get key = none) : engine'.postings.get key = none := by
  cases hget : engine'.postings.get key with
  | none => rfl
  | some docMap =>
    exfalso
    apply h'.compact key docMap hget
    rw [OMap.entries_eq_nil_iff]
    intro k
    have hlookup := lookup_agree h h' key k
    rw [lookup, hnone, lookup, hget] at hlookup
    exact hlookup.symm

variable {docMap : OMap String (PostingInfo N M)}

theorem exists_entry (h : Represents s engine docs) (hget : engine.postings.get key = some docMap) :
    ∃ k doc, docs.get k = some doc ∧ ∃ entry ∈ entries s doc, entryKey entry = key := by
  obtain ⟨e, he⟩ := List.exists_mem_of_ne_nil _ (h.compact key docMap hget)
  have hfound : lookup engine.postings key e.1 = some e.2 := by
    rw [lookup, hget]
    exact (docMap.mem_entries_iff_get e.1 e.2).mp he
  rw [h.postings] at hfound
  obtain ⟨doc, hdoc, hentry⟩ := Option.bind_eq_some_iff.mp hfound
  obtain ⟨entry, hat, -⟩ := Option.map_eq_some_iff.mp hentry
  exact ⟨e.1, doc, hdoc, entry, mem_of_entryAt hat⟩

theorem tokens_agree (h : Represents s engine docs) (h' : Represents s engine' docs)
    (params : SearchParams) (hget : engine.postings.get key = some docMap) :
    (tokenMap s engine params).get key = (tokenMap s engine' params).get key := by
  have hperm := terms_perm h h'
  rw [get_tokenMap, get_tokenMap]
  congr 1
  cases hfields : params.fields with
  | some fields =>
    rw [Option.getD_some, Option.getD_some, List.find?_flatMap, List.find?_flatMap]
    congr 1
    funext field
    exact find?_pairs params hperm field key
  | none =>
    obtain ⟨k, doc, hdoc, entry, hentry, rfl⟩ := exists_entry h hget
    rw [Option.getD_none, Option.getD_none, entryKey,
      find?_fields params _ h.plainFields (h.fieldNames k doc hdoc entry hentry),
      find?_fields params _ h'.plainFields (h'.fieldNames k doc hdoc entry hentry)]
    exact find?_pairs params hperm entry.field _

/-! ## Scores -/

theorem averageLength_agree (h : Represents s engine docs) (h' : Represents s engine' docs) :
    engine.stats.averageLength = engine'.stats.averageLength := by
  rw [DocumentStats.averageLength, DocumentStats.averageLength, h.documentCount,
    h'.documentCount, h.totalLength, h'.totalLength]

theorem contributions_perm (h : Represents s engine docs) (h' : Represents s engine' docs)
    (params : SearchParams) (token : QueryToken) :
    (contributions s engine params token).Perm (contributions s engine' params token) := by
  rw [contributions, contributions]
  cases hget : engine.postings.get (postingKey token.field token.term) with
  | none =>
    rw [get_postings_none h h' hget]
  | some docMap =>
    cases hget' : engine'.postings.get (postingKey token.field token.term) with
    | none =>
      rw [get_postings_none h' h hget'] at hget
      cases hget
    | some docMap' =>
      have hsame : ∀ k, docMap.get k = docMap'.get k := by
        intro k
        have hlookup := lookup_agree h h' (postingKey token.field token.term) k
        rwa [lookup, hget, lookup, hget'] at hlookup
      have hentries := OMap.perm_of_get_eq hsame
      have hlengths : ∀ k, engine.stats.lengths.get k = engine'.stats.lengths.get k :=
        fun k => (h.lengths k).trans (h'.lengths k).symm
      dsimp only
      rw [hentries.length_eq, averageLength_agree h h']
      simp only [hlengths]
      exact hentries.map _

theorem contributions_of_none (h : engine.postings.get (postingKey token.field token.term) = none) :
    contributions s engine params token = [] := by
  rw [contributions, h]

/-- The tokens under whose keys there are postings. -/
def found (engine : ResourceEngine N M D) (e : String × QueryToken) : Bool :=
  (engine.postings.get e.1).isSome

theorem flatMap_found (params : SearchParams) {tokens : OMap String QueryToken}
    (hkeys : ∀ key token, tokens.get key = some token → postingKey token.field token.term = key) :
    tokens.values.flatMap (contributions s engine params) =
      (tokens.view (found engine)).flatMap fun e => contributions s engine params e.2 := by
  have hkey : ∀ e ∈ tokens.entries, postingKey e.2.field e.2.term = e.1 :=
    fun e he => hkeys e.1 e.2 ((tokens.mem_entries_iff_get e.1 e.2).mp he)
  rw [OMap.values, OMap.view, List.flatMap_map]
  revert hkey
  generalize tokens.entries = es
  intro hkey
  induction es with
  | nil => rfl
  | cons e rest ih =>
    have hrest := ih fun e' he' => hkey e' (List.mem_cons_of_mem _ he')
    rw [List.flatMap_cons, hrest, List.filter_cons]
    split_ifs with hfound
    · rw [List.flatMap_cons]
    have hnone : engine.postings.get (postingKey e.2.field e.2.term) = none := by
      rw [hkey e List.mem_cons_self]
      rw [found] at hfound
      simpa using hfound
    rw [contributions_of_none hnone, List.nil_append]

theorem allContributions_perm (h : Represents s engine docs) (h' : Represents s engine' docs)
    (params : SearchParams) :
    ((tokenMap s engine params).values.flatMap (contributions s engine params)).Perm
      ((tokenMap s engine' params).values.flatMap (contributions s engine' params)) := by
  rw [flatMap_found params fun _ _ => key_of_token, flatMap_found params fun _ _ => key_of_token]
  have hview : ((tokenMap s engine params).view (found engine)).Perm
      ((tokenMap s engine' params).view (found engine')) := by
    have hnodup : ∀ (m : OMap String QueryToken) (p : String × QueryToken → Bool),
        (m.view p).Nodup := fun m p => m.nodup_entries.filter p
    rw [List.perm_ext_iff_of_nodup (hnodup _ _) (hnodup _ _)]
    intro e
    rw [show e = (e.1, e.2) from rfl, OMap.mem_view, OMap.mem_view, found, found]
    cases hget : engine.postings.get e.1 with
    | none =>
      rw [get_postings_none h h' hget]
      simp
    | some docMap =>
      cases hget' : engine'.postings.get e.1 with
      | none =>
        rw [get_postings_none h' h hget'] at hget
        cases hget
      | some docMap' =>
        rw [tokens_agree h h' params hget]
        rfl
  exact hview.flatMap fun e _ => contributions_perm h h' params e.2

instance : Std.Total ranksBefore where
  total a b := by
    rcases lt_trichotomy a.2 b.2 with hlt | heq | hlt
    · exact .inr (.inl hlt)
    · rcases le_total a.1 b.1 with hle | hle
      · exact .inl (.inr ⟨heq, hle⟩)
      · exact .inr (.inr ⟨heq.symm, hle⟩)
    · exact .inl (.inl hlt)

instance : IsTrans (String × Rat) ranksBefore where
  trans a b c hab hbc := by
    rcases hab with hab | ⟨hab, hkey⟩
    · rcases hbc with hbc | ⟨hbc, -⟩
      · exact .inl (hbc.trans hab)
      · exact .inl (hbc ▸ hab)
    · rcases hbc with hbc | ⟨hbc, hkey'⟩
      · exact .inl (hab ▸ hbc)
      · exact .inr ⟨hab.trans hbc, hkey.trans hkey'⟩

theorem ranksBefore_antisymm {a b : String × Rat} (hab : ranksBefore a b)
    (hba : ranksBefore b a) : a = b := by
  rcases hab with hab | ⟨hab, hkey⟩
  · rcases hba with hba | ⟨hba, -⟩
    · exact absurd (hab.trans hba) (lt_irrefl _)
    · exact absurd (hba ▸ hab) (lt_irrefl _)
  · rcases hba with hba | ⟨-, hkey'⟩
    · exact absurd (hab ▸ hba) (lt_irrefl _)
    · exact Prod.ext (le_antisymm hkey hkey') hab

theorem insertionSort_perm {xs ys : List (String × Rat)} (h : xs.Perm ys) :
    xs.insertionSort ranksBefore = ys.insertionSort ranksBefore := by
  refine List.Perm.eq_of_pairwise (fun a b _ _ hab hba => ranksBefore_antisymm hab hba)
    (List.pairwise_insertionSort ranksBefore xs) (List.pairwise_insertionSort ranksBefore ys) ?_
  exact ((List.perm_insertionSort _ xs).trans h).trans (List.perm_insertionSort _ ys).symm

theorem search_agree (h : Represents s engine docs) (h' : Represents s engine' docs)
    (params : SearchParams) : (search s engine params).2 = (search s engine' params).2 := by
  have hscores : ∀ k,
      ((OMap.empty : OMap String Rat).addAll ((tokenMap s engine params).values.flatMap
        (contributions s engine params))).get k =
      ((OMap.empty : OMap String Rat).addAll ((tokenMap s engine' params).values.flatMap
        (contributions s engine' params))).get k :=
    OMap.get_addAll_perm (allContributions_perm h h' params)
  have hsorted := insertionSort_perm (OMap.perm_of_get_eq hscores)
  have hmetadata : ∀ k, engine.docMetadata.get k = engine'.docMetadata.get k :=
    fun k => (h.docMetadata k).trans (h'.docMetadata k).symm
  have hids : ∀ k, engine.docIds.get k = engine'.docIds.get k :=
    fun k => (h.docIds k).trans (h'.docIds k).symm
  have hfilter : matchesMetadataFilters s engine params =
      matchesMetadataFilters s engine' params := by
    funext k
    rw [matchesMetadataFilters, matchesMetadataFilters, hmetadata]
  rw [search_eq h, search_eq h', rank, rank]
  rw [OMap.addAll, OMap.addAll] at hsorted
  rw [hsorted, hfilter]
  simp only [hids]

end SuperFunctions.SearchFn.SearchResults

/-!
# The index is that of the latest documents

Whatever was indexed, replaced and removed before, a resource holds what a fresh one holds that
indexes the documents that are left, as long as fields and terms are told apart by their keys.
-/
namespace SuperFunctions.SearchFn.IndexRebuild

open Lib.OrderedMap Ingest PostingKey MemoryIndex PostingTables IndexInvariant SearchResults

section
variable {N M D : Type} (s : Setup N M D)

/-- The documents that are left after one more call. -/
def survive (docs : Documents N D) : Action N D → Documents N D
  | .index doc => (docs.delete (docKey s doc)).set (docKey s doc) doc
  | .remove id => docs.delete (toKey s.numberText id)
  | .search _ => docs

def survivors (actions : List (Action N D)) : Documents N D :=
  actions.foldl (survive s) OMap.empty

/-- The resource after the calls. -/
def runActions (actions : List (Action N D)) : ResourceEngine N M D :=
  actions.foldl (step s) createEngine

/-- A fresh resource that indexes the documents. -/
def rebuilt (docs : Documents N D) : ResourceEngine N M D :=
  docs.values.foldl (index s) createEngine

/-- Every document that is indexed is plain. -/
def PlainAction : Action N D → Prop
  | .index doc => PlainDocument s doc
  | _ => True

instance (action : Action N D) : Decidable (PlainAction s action) := by
  unfold PlainAction
  split <;> infer_instance

/-- The same postings, statistics, vocabulary and metadata. -/
structure SameIndex (engine fresh : ResourceEngine N M D) : Prop where
  keys : ∀ key, engine.postings.get key = none ↔ fresh.postings.get key = none
  postings : ∀ key k, lookup engine.postings key k = lookup fresh.postings key k
  lengths : ∀ k, engine.stats.lengths.get k = fresh.stats.lengths.get k
  totalLength : engine.stats.totalLength = fresh.stats.totalLength
  documentCount : engine.stats.documentCount = fresh.stats.documentCount
  terms : ∀ term, term ∈ engine.vocabulary.terms ↔ term ∈ fresh.vocabulary.terms
  refs : ∀ term, engine.vocabulary.refs.get term = fresh.vocabulary.refs.get term
  docIds : ∀ k, engine.docIds.get k = fresh.docIds.get k
  docMetadata : ∀ k, engine.docMetadata.get k = fresh.docMetadata.get k

/-- Two entries of the documents have one key only for one field and one term. -/
def Unshared (docs : Documents N D) : Prop :=
  ∀ doc ∈ docs.values, ∀ doc' ∈ docs.values, ∀ entry ∈ entries s doc, ∀ entry' ∈ entries s doc',
    entryKey entry = entryKey entry' → entry.field = entry'.field ∧ entry.term = entry'.term

variable {s} {docs : Documents N D}

theorem sameIndex_of_represents {engine fresh : ResourceEngine N M D} (h : Represents s engine docs)
    (h' : Represents s fresh docs) : SameIndex engine fresh where
  keys _ := ⟨get_postings_none h h', get_postings_none h' h⟩
  postings := lookup_agree h h'
  lengths k := (h.lengths k).trans (h'.lengths k).symm
  totalLength := h.totalLength.trans h'.totalLength.symm
  documentCount := h.documentCount.trans h'.documentCount.symm
  terms term := (h.vocabulary.terms term).trans (h'.vocabulary.terms term).symm
  refs term := (h.vocabulary.refs term).trans (h'.vocabulary.refs term).symm
  docIds k := (h.docIds k).trans (h'.docIds k).symm
  docMetadata k := (h.docMetadata k).trans (h'.docMetadata k).symm

theorem represents_step {engine : ResourceEngine N M D} (h : Represents s engine docs)
    {action : Action N D} (hplain : PlainAction s action) :
    Represents s (step s engine action) (survive s docs action) := by
  cases action with
  | index doc => exact represents_index h hplain
  | remove id => exact represents_remove h id
  | search params => exact represents_search h params

theorem represents_run {actions : List (Action N D)}
    (hplain : ∀ action ∈ actions, PlainAction s action) :
    Represents s (runActions s actions) (survivors s actions) := by
  have hfold : ∀ (engine : ResourceEngine N M D) (docs : Documents N D),
      Represents s engine docs →
      Represents s (actions.foldl (step s) engine) (actions.foldl (survive s) docs) := by
    induction actions with
    | nil => exact fun _ _ => id
    | cons action rest ih =>
      intro engine docs h
      exact ih (fun a ha => hplain a (List.mem_cons_of_mem _ ha)) _ _
        (represents_step h (hplain action List.mem_cons_self))
  exact hfold _ _ represents_createEngine

/-! ## The documents that are left -/

/-- Documents stand under their keys. -/
def Keyed (s : Setup N M D) (docs : Documents N D) : Prop :=
  ∀ k doc, docs.get k = some doc → k = docKey s doc

theorem keyed_survive (h : Keyed s docs) (action : Action N D) :
    Keyed s (survive s docs action) := by
  have hdelete : ∀ k', Keyed s (docs.delete k') := by
    intro k' k doc hget
    rw [OMap.get_delete] at hget
    split_ifs at hget
    exact h k doc hget
  cases action with
  | index doc =>
    intro k d hget
    rw [survive, OMap.get_set] at hget
    split_ifs at hget with hk
    · rw [hk, Option.some.inj hget]
    · exact hdelete _ k d hget
  | remove id => exact hdelete _
  | search params => exact h

theorem keyed_survivors (actions : List (Action N D)) : Keyed s (survivors s actions) := by
  have hfold : ∀ docs, Keyed s docs → Keyed s (actions.foldl (survive s) docs) := by
    induction actions with
    | nil => exact fun _ => id
    | cons action rest ih => exact fun docs h => ih _ (keyed_survive h action)
  exact hfold _ fun _ _ h => by cases h

/-- Indexing the documents one after the other puts them back in their order. -/
theorem foldl_survive_values {es : List (String × Document N D)}
    (hkeyed : ∀ e ∈ es, e.1 = docKey s e.2) (hnodup : ((docs.entries ++ es).map Prod.fst).Nodup) :
    ((es.map Prod.snd).foldl (fun docs doc => survive s docs (.index doc)) docs).entries =
      docs.entries ++ es := by
  induction es generalizing docs with
  | nil => rw [List.append_nil]; rfl
  | cons e rest ih =>
    have hkey := hkeyed e List.mem_cons_self
    have hnone : docs.get e.1 = none := by
      cases hget : docs.get e.1 with
      | none => rfl
      | some doc =>
        exfalso
        have hmem := (docs.mem_entries_iff_get e.1 doc).mpr hget
        rw [List.map_append, List.nodup_append'] at hnodup
        have hnew : e.1 ∈ (e :: rest).map Prod.fst := List.mem_map_of_mem List.mem_cons_self
        exact hnodup.2.2 (List.mem_map_of_mem hmem) hnew
    have hset : (survive s docs (.index e.2)).entries = docs.entries ++ [e] := by
      rw [survive, ← hkey, OMap.delete_of_get_none hnone, OMap.entries_set_of_get_none _ hnone]
    have hmore : (((survive s docs (.index e.2)).entries ++ rest).map Prod.fst).Nodup := by
      rwa [hset, List.append_assoc]
    rw [List.map_cons, List.foldl_cons,
      ih (fun e' he' => hkeyed e' (List.mem_cons_of_mem _ he')) hmore, hset, List.append_assoc]
    rfl

theorem represents_rebuilt (hkeyed : Keyed s docs)
    (hplain : ∀ doc ∈ docs.values, PlainDocument s doc) : Represents s (rebuilt s docs) docs := by
  have hactions : ∀ action ∈ docs.values.map Action.index, PlainAction s action := by
    refine List.forall_mem_map.mpr fun doc hdoc => ?_
    exact hplain doc hdoc
  have hrun := represents_run hactions
  have hengine : runActions s (docs.values.map Action.index) = rebuilt s docs := by
    rw [runActions, rebuilt, List.foldl_map]
    rfl
  have hdocs : survivors s (docs.values.map Action.index) = docs := by
    apply OMap.ext
    rw [survivors, List.foldl_map]
    have hkeys : ∀ e ∈ docs.entries, e.1 = docKey s e.2 :=
      fun e he => hkeyed e.1 e.2 ((docs.mem_entries_iff_get e.1 e.2).mp he)
    have hnodup : (((OMap.empty : Documents N D).entries ++ docs.entries).map Prod.fst).Nodup :=
      docs.nodup
    exact foldl_survive_values hkeys hnodup
  rwa [hengine, hdocs] at hrun

/-- The document has a posting that the search looks up, and passes its filters. -/
def Hit (s : Setup N M D) (engine : ResourceEngine N M D) (params : SearchParams)
    (doc : Document N D) : Prop :=
  (∃ token ∈ (tokenMap s engine params).values, ∃ entry ∈ entries s doc,
    entryKey entry = postingKey token.field token.term) ∧
  matchesMetadataFilters s engine params (docKey s doc) = true

/-- What is ranked, before the limit. -/
def candidates (s : Setup N M D) (engine : ResourceEngine N M D) (params : SearchParams) :
    List (String × Rat) :=
  (((OMap.empty : OMap String Rat).addAll ((tokenMap s engine params).values.flatMap
    (contributions s engine params))).entries.insertionSort ranksBefore).filter
    fun e => matchesMetadataFilters s engine params e.1

variable {engine : ResourceEngine N M D} {params : SearchParams} {k : String}

theorem mem_contributions (h : Represents s engine docs) {tokens : List QueryToken} :
    k ∈ (tokens.flatMap (contributions s engine params)).map Prod.fst ↔
      ∃ doc, docs.get k = some doc ∧ ∃ token ∈ tokens, ∃ entry ∈ entries s doc,
        entryKey entry = postingKey token.field token.term := by
  have hone : ∀ token, k ∈ (contributions s engine params token).map Prod.fst ↔
      (lookup engine.postings (postingKey token.field token.term) k).isSome = true := by
    intro token
    rw [contributions, lookup]
    cases engine.postings.get (postingKey token.field token.term) with
    | none => simp
    | some docMap => simp [← OMap.mem_keys_iff_get, OMap.keys]
  simp only [List.map_flatMap, List.mem_flatMap, hone, h.postings]
  cases docs.get k with
  | none => simp
  | some doc => simp [entryAt]

theorem mem_candidates (h : Represents s engine docs) (hkeyed : Keyed s docs) :
    k ∈ (candidates s engine params).map Prod.fst ↔
      ∃ doc, docs.get k = some doc ∧ Hit s engine params doc := by
  have hscored : k ∈ (candidates s engine params).map Prod.fst ↔
      k ∈ ((tokenMap s engine params).values.flatMap (contributions s engine params)).map Prod.fst ∧
        matchesMetadataFilters s engine params k = true := by
    rw [candidates, List.mem_map]
    by_cases hk : k ∈ ((tokenMap s engine params).values.flatMap
        (contributions s engine params)).map Prod.fst
    · simp [-List.mem_map, OMap.mem_entries_iff_get, OMap.get_addAll, hk]
    · simp [-List.mem_map, OMap.mem_entries_iff_get, OMap.get_addAll, hk]
  rw [hscored, mem_contributions h]
  constructor
  · rintro ⟨⟨doc, hdoc, hlooked⟩, hfilter⟩
    exact ⟨doc, hdoc, hlooked, hkeyed k doc hdoc ▸ hfilter⟩
  · rintro ⟨doc, hdoc, hlooked, hfilter⟩
    exact ⟨⟨doc, hdoc, hlooked⟩, hkeyed k doc hdoc ▸ hfilter⟩

/-- A search finds no more than it may, and only documents that are left and that it hits. As long
as there is room it finds all of these. -/
theorem found_exactly {actions : List (Action N D)}
    (hplain : ∀ action ∈ actions, PlainAction s action) (params : SearchParams) :
    let found := (search s (runActions s actions) params).2
    let limit := max 1 (params.limit.getD 10)
    found.length ≤ limit ∧
    (∀ f ∈ found, ∃ doc ∈ (survivors s actions).values,
      f = .id doc.id ∧ Hit s (runActions s actions) params doc) ∧
    (found.length < limit → ∀ doc ∈ (survivors s actions).values,
      Hit s (runActions s actions) params doc → .id doc.id ∈ found) := by
  have h := represents_run hplain
  have hkeyed : Keyed s (survivors s actions) := keyed_survivors actions
  generalize runActions s actions = engine at h ⊢
  generalize survivors s actions = docs at h hkeyed ⊢
  intro found limit
  have hfound : found = ((candidates s engine params).take limit).map
      fun e => ((engine.docIds.get e.1).map Found.id).getD (.key e.1) := search_eq h params
  have hid : ∀ k doc, docs.get k = some doc → Hit s engine params doc →
      ((engine.docIds.get k).map Found.id).getD (.key k) = .id doc.id := by
    rintro k doc hdoc ⟨⟨token, -, entry, hentry, -⟩, -⟩
    rw [h.docIds, hdoc, Option.bind_some, if_neg]
    · rfl
    intro hempty
    rw [entries, entriesOf_eq_nil hempty] at hentry
    cases hentry
  rw [hfound, List.length_map]
  refine ⟨List.length_take_le _ _, fun f hf => ?_, fun hroom doc hdoc hhit => ?_⟩
  · obtain ⟨e, he, rfl⟩ := List.mem_map.mp hf
    obtain ⟨doc, hdoc, hhit⟩ :=
      (mem_candidates h hkeyed).mp (List.mem_map_of_mem (List.mem_of_mem_take he))
    exact ⟨doc, (docs.mem_values_iff_get _).mpr ⟨_, hdoc⟩, hid _ doc hdoc hhit, hhit⟩
  · obtain ⟨k, hget⟩ := (docs.mem_values_iff_get _).mp hdoc
    obtain ⟨e, he, rfl⟩ := List.mem_map.mp ((mem_candidates h hkeyed).mpr ⟨doc, hget, hhit⟩)
    rw [List.take_of_length_le (by rw [List.length_take] at hroom; omega)]
    exact List.mem_map.mpr ⟨e, he, hid _ doc hget hhit⟩

end

/-! ## Runs of the adapter -/

/-- A text is one token, and one that ends in `*` is marked as a prefix. -/
def sampleSetup : Setup Nat Bool Unit where
  pipeline := ⟨fun _ text => [⟨text, some (text.toList.getLast? = some '*')⟩], id⟩
  numberText := toString
  metadataText _ _ := "undefined"
  lower := id
  log := id

def sampleDocument (id : DocId Nat) (field text : String) : Document Nat Unit :=
  ⟨id, OMap.empty.set field text, none⟩

/-- A document is replaced, a number and a string are spelled alike, a prefix is removed. -/
def sampleActions : List (MemoryIndex.Action Nat Unit) :=
  [.index (sampleDocument (.str "1") "title" "tree"),
    .index (sampleDocument (.num 1) "title" "tr*"),
    .index (sampleDocument (.str "1") "body" "forest"),
    .search ⟨"tree", none, none, false, .on, OMap.empty, [], []⟩,
    .remove (.num 1)]

theorem found_exactly_sampleActions :
    (search sampleSetup (runActions sampleSetup sampleActions)
      ⟨"forest", none, none, false, .off, OMap.empty, [], []⟩).2.length ≤ max 1 10 :=
  (found_exactly (by decide) _).1

/-- A document whose field contains the separator comes and goes. -/
def separatorActions : List (MemoryIndex.Action Nat Unit) :=
  [.index (sampleDocument (.str "1") "a::b" "c"), .remove (.str "1")]

end SuperFunctions.SearchFn.IndexRebuild
