import SuperFunctions.SearchFn.SnapshotInvariant

/-!
# What each call keeps

Adding, removing, clearing and importing keep the index that of the stored documents. A removal does
so exactly when it drops the terms that go with the document.
-/
namespace SuperFunctions.SearchFn.SnapshotSteps

open Lib.OrderedMap Ingest
open MemoryIndex (DocId PostingInfo addToSet fuzzyExpand)
open VocabularyCounts (mem_addToSet nodup_addToSet)
open InMemorySearch SnapshotInvariant OMap

variable {N M P : Type} [DecidableEq N] {o : Options N M} {engine : InMemorySearchFn N M P}
  {docs : Stored N P}

/-! ## Buckets and documents -/

variable {id : DocId N} {doc : StoredDocument P}

theorem keysApart_get (h : KeysApart o docs) {id' : DocId N} {doc' : StoredDocument P}
    (hdoc : docs.get id = some doc) (hdoc' : docs.get id' = some doc') {entry entry' : Entry M}
    (hentry : entry ∈ entries o doc) (hentry' : entry' ∈ entries o doc')
    (hkey : bucketKey entry = bucketKey entry') :
    entry.field = entry'.field ∧ entry.term = entry'.term :=
  h doc ((mem_values_iff_get _ _).mpr ⟨id, hdoc⟩) doc'
    ((mem_values_iff_get _ _).mpr ⟨id', hdoc'⟩) entry hentry entry' hentry' hkey

theorem keysApart_of_kept {docs' : Stored N P} (h : KeysApart o docs)
    (hkept : ∀ id doc, docs'.get id = some doc → docs.get id = some doc) : KeysApart o docs' := by
  intro doc hdoc doc' hdoc'
  obtain ⟨id, hget⟩ := (mem_values_iff_get _ _).mp hdoc
  obtain ⟨id', hget'⟩ := (mem_values_iff_get _ _).mp hdoc'
  exact h doc ((mem_values_iff_get _ _).mpr ⟨id, hkept id doc hget⟩) doc'
    ((mem_values_iff_get _ _).mpr ⟨id', hkept id' doc' hget'⟩)

theorem nodup_bucketKeys (h : KeysApart o docs) (hdoc : docs.get id = some doc) :
    ((entries o doc).map bucketKey).Nodup := by
  have hpairs := nodup_entriesOf (p := o.setup.pipeline) doc.fields
  have hmap : (entries o doc).map bucketKey =
      ((entries o doc).map fun entry => (entry.field, entry.term)).map
        fun pair => postingBucketKey pair.1 pair.2 := by
    rw [List.map_map]
    rfl
  rw [hmap]
  refine List.Nodup.map_on ?_ hpairs
  intro a ha b hb heq
  obtain ⟨entry, hentry, rfl⟩ := List.mem_map.mp ha
  obtain ⟨entry', hentry', rfl⟩ := List.mem_map.mp hb
  obtain ⟨hfield, hterm⟩ := keysApart_get h hdoc hdoc hentry hentry' heq
  exact Prod.ext hfield hterm

variable {bucket : PostingBucket N M} {key : String}

theorem named_entry (h : Represents o engine docs) (hget : engine.postings.get key = some bucket)
    (hdoc : docs.get id = some doc) {entry : Entry M} (hentry : entry ∈ entries o doc)
    (hkey : bucketKey entry = key) : entry.field = bucket.field ∧ entry.term = bucket.term := by
  obtain ⟨id', doc', hdoc', entry', hentry', hkey', hfield, hterm⟩ := h.named key bucket hget
  obtain ⟨hf, ht⟩ := keysApart_get h.apart hdoc hdoc' hentry hentry' (hkey.trans hkey'.symm)
  exact ⟨hf.trans hfield, ht.trans hterm⟩

theorem bucket_key (h : Represents o engine docs) (hget : engine.postings.get key = some bucket) :
    postingBucketKey bucket.field bucket.term = key := by
  obtain ⟨id, doc, hdoc, entry, hentry, hkey, hfield, hterm⟩ := h.named key bucket hget
  rw [← hkey, ← hfield, ← hterm]
  rfl

variable {ps : Buckets N M}

theorem lookup_of_get (hget : ps.get key = some bucket) (id : DocId N) :
    lookup ps key id = bucket.documents.get id := by
  rw [lookup, hget]
  rfl

theorem exists_bucket {p : PostingInfo N M} (h : lookup ps key id = some p) :
    ∃ bucket, ps.get key = some bucket ∧ bucket.documents.get id = some p :=
  Option.bind_eq_some_iff.mp h

theorem ownedElsewhere_iff (h : Represents o engine docs) (id : DocId N) (term : String) :
    OwnedElsewhere o engine.postings id term ↔ Owned o (docs.delete id) term := by
  constructor
  · intro ⟨key, bucket, k, hget, hterm, hk, hown⟩
    obtain ⟨p, hp, hmeta⟩ := ownPosting_iff.mp hown
    rw [← lookup_of_get hget] at hp
    obtain ⟨doc, hdoc, entry, hentry, hkey, rfl⟩ := (h.postings key k p).mp hp
    refine ⟨k, doc, by rw [get_delete, if_neg hk, hdoc], entry, hentry, ?_, hmeta⟩
    rw [(named_entry h hget hdoc hentry hkey).2, hterm]
  · intro ⟨k, doc, hget, entry, hentry, hterm, hmeta⟩
    rw [get_delete] at hget
    split_ifs at hget with hk
    have hlookup := (h.postings (bucketKey entry) k _).mpr ⟨doc, hget, entry, hentry, rfl, rfl⟩
    obtain ⟨bucket, hbucket, hp⟩ := exists_bucket hlookup
    refine ⟨bucketKey entry, bucket, k, hbucket, ?_, hk, ownPosting_iff.mpr ⟨_, hp, hmeta⟩⟩
    rw [← (named_entry h hbucket hget hentry rfl).2, hterm]

/-! ## Removing -/

variable {term : String}

theorem owned_of_delete (h : Owned o (docs.delete id) term) : Owned o docs term := by
  obtain ⟨k, doc, hget, hown⟩ := h
  rw [get_delete] at hget
  split_ifs at hget
  exact ⟨k, doc, hget, hown⟩

theorem not_ownedElsewhere (h : OnlyOwner o ps id term) : ¬ OwnedElsewhere o ps id term := by
  intro ⟨key, bucket, k, hget, hterm, hk, hown⟩
  obtain ⟨p, hp, hmeta⟩ := ownPosting_iff.mp hown
  exact hk (h (key, bucket) ((mem_entries_iff_get _ _ _).mpr hget) hterm (k, p)
    ((mem_entries_iff_get _ _ _).mpr hp) hmeta)

theorem remove_vocabulary (engine : InMemorySearchFn N M P) (id : DocId N) :
    (remove o engine id).vocabulary = (engine.postings.entries.foldl (removePosting o id)
      (engine.postings, engine.vocabulary, engine.fuzzyCache)).2.1 := rfl

theorem remove_vocabulary_iff (h : Represents o engine docs) (id : DocId N) :
    (∀ term, term ∈ (remove o engine id).vocabulary ↔ Owned o (docs.delete id) term) ↔
      RemovalPrunes o engine id := by
  have hmid := midway_start id engine.postings
  constructor
  · intro hexact term hterm honly
    have helse := not_ownedElsewhere honly
    have hgone : term ∉ (remove o engine id).vocabulary := by
      rwa [hexact, ← ownedElsewhere_iff h]
    rw [remove_vocabulary, mem_removal_of_only hmid helse] at hgone
    by_contra hnot
    exact hgone ⟨hterm, hnot⟩
  · intro hprunes term
    rw [remove_vocabulary, ← ownedElsewhere_iff h]
    by_cases helse : OwnedElsewhere o engine.postings id term
    · rw [mem_removal_of_elsewhere hmid helse]
      refine ⟨fun _ => helse, fun _ => (h.vocabulary term).mpr ?_⟩
      exact owned_of_delete ((ownedElsewhere_iff h id term).mp helse)
    · rw [mem_removal_of_only hmid helse]
      refine ⟨fun hterm => ?_, fun hown => absurd hown helse⟩
      have honly := (onlyOwner_or engine.postings id term).resolve_right helse
      exact absurd (hprunes term hterm.1 honly) hterm.2

/-- The vocabulary has each term once, and the cache has expansions of the vocabulary. -/
structure Current (o : Options N M) (vocabulary : List String) (cache : FuzzyCache) : Prop where
  distinct : vocabulary.Nodup
  cache : ∀ term distance expansion, cache.get (term, distance) = some expansion →
    expansion = fuzzyExpand o.setup term distance vocabulary

theorem current_removal (id : DocId N) (es : List (String × PostingBucket N M))
    (state : Removal N M) (h : Current o state.2.1 state.2.2) :
    Current o (es.foldl (removePosting o id) state).2.1
      (es.foldl (removePosting o id) state).2.2 := by
  induction es generalizing state with
  | nil => exact h
  | cons e rest ih =>
    apply ih _
    obtain ⟨ps, vocabulary, cache⟩ := state
    rw [removePosting]
    dsimp only
    split_ifs
    · exact h
    · exact ⟨h.distinct.filter _, fun _ _ _ hget => by cases hget⟩
    · exact h

theorem get_remove_lengths (st : StatsManager N) (id k : DocId N) :
    (st.removeDocument id).lengths.get k = if k = id then none else st.lengths.get k := by
  rw [StatsManager.removeDocument]
  split
  · exact get_delete _ _ _
  · next hnone =>
    split_ifs with hk
    · rw [hk, hnone]
    · rfl

theorem represents_remove (h : Represents o engine docs) (hprunes : RemovalPrunes o engine id) :
    Represents o (remove o engine id) (docs.delete id) := by
  have hpostings : (remove o engine id).postings = dropDocument id engine.postings :=
    foldl_removePosting_fst id engine.postings.entries _
  have hkept : ∀ k doc, (docs.delete id).get k = some doc ↔ k ≠ id ∧ docs.get k = some doc := by
    intro k doc
    rw [get_delete]
    split_ifs with hk
    · simp [hk]
    · simp [hk]
  have hcurrent := current_removal id engine.postings.entries
    (engine.postings, engine.vocabulary, engine.fuzzyCache) ⟨h.distinct, h.cache⟩
  refine ⟨keysApart_of_kept h.apart fun k doc hget => ((hkept k doc).mp hget).2,
    fun key k p => ?_, fun key bucket hget => ?_, fun k => ?_, ?_, ?_, fun k => ?_,
    (remove_vocabulary_iff h id).mpr hprunes, hcurrent.distinct, hcurrent.cache⟩
  · rw [hpostings, lookup_dropDocument]
    constructor
    · intro hlookup
      split_ifs at hlookup with hk
      obtain ⟨doc, hdoc, hentry⟩ := (h.postings key k p).mp hlookup
      exact ⟨doc, (hkept k doc).mpr ⟨hk, hdoc⟩, hentry⟩
    · intro ⟨doc, hdoc, hentry⟩
      obtain ⟨hk, hold⟩ := (hkept k doc).mp hdoc
      rw [if_neg hk]
      exact (h.postings key k p).mpr ⟨doc, hold, hentry⟩
  · rw [hpostings, get_dropDocument] at hget
    obtain ⟨old, hold, hleft⟩ := Option.bind_eq_some_iff.mp hget
    obtain ⟨hfield, hterm, hsome, hdocs⟩ := get_without hleft
    obtain ⟨e, he⟩ := List.exists_mem_of_ne_nil _ hsome
    have hget := (mem_entries_iff_get _ _ _).mp he
    rw [hdocs] at hget
    split_ifs at hget with hk
    rw [← lookup_of_get hold] at hget
    obtain ⟨doc, hdoc, entry, hentry, hkey, -⟩ := (h.postings key _ _).mp hget
    obtain ⟨hf, ht⟩ := named_entry h hold hdoc hentry hkey
    exact ⟨e.1, doc, (hkept _ _).mpr ⟨hk, hdoc⟩, entry, hentry, hkey, hf.trans hfield.symm,
      ht.trans hterm.symm⟩
  · show (engine.statsManager.removeDocument id).lengths.get k = _
    rw [get_remove_lengths, h.lengths, get_delete]
    split_ifs
    · rfl
    · rfl
  · show (engine.statsManager.removeDocument id).totalLength = _
    have hlength := h.lengths id
    rw [StatsManager.removeDocument]
    cases hget : docs.get id with
    | none =>
      rw [hget, Option.map_none] at hlength
      rw [hlength, delete_of_get_none hget]
      exact h.totalLength
    | some doc =>
      rw [hget, Option.map_some] at hlength
      rw [hlength]
      have hsum := sum_delete (length o) hget
      have htotal := h.totalLength
      show engine.statsManager.totalLength - (length o doc : Nat) = _
      omega
  · show (engine.statsManager.removeDocument id).documentCount = _
    have hlength := h.lengths id
    rw [StatsManager.removeDocument]
    cases hget : docs.get id with
    | none =>
      rw [hget, Option.map_none] at hlength
      rw [hlength, delete_of_get_none hget]
      exact h.documentCount
    | some doc =>
      rw [hget, Option.map_some] at hlength
      rw [hlength]
      have hsum := sum_delete (fun _ : StoredDocument P => 1) hget
      have hcount := h.documentCount
      show engine.statsManager.documentCount - 1 = _
      omega
  · show (engine.documents.delete id).get k = _
    rw [get_delete, get_delete, h.documents]
    split_ifs
    · rfl
    · rfl

/-! ## Adding -/

theorem lookup_putPosting (ps : Buckets N M) (id : DocId N) (entry : Entry M) (key : String)
    (k : DocId N) :
    lookup (putPosting ps id entry) key k =
      if key = bucketKey entry ∧ k = id then some (posting id entry) else lookup ps key k := by
  rw [lookup, putPosting, get_set]
  by_cases hkey : key = postingBucketKey entry.field entry.term
  · rw [if_pos hkey, Option.bind_some]
    rw [get_set]
    by_cases hk : k = id
    · rw [if_pos hk, if_pos ⟨hkey, hk⟩]
      rfl
    · rw [if_neg hk, if_neg fun h => hk h.2, lookup, hkey]
      cases ps.get (postingBucketKey entry.field entry.term) with
      | none => rfl
      | some bucket => rfl
  · rw [if_neg hkey, if_neg fun h => hkey h.1, lookup]

def putAll (ps : Buckets N M) (id : DocId N) (es : List (Entry M)) : Buckets N M :=
  es.foldl (fun ps entry => putPosting ps id entry) ps

theorem lookup_putAll {es : List (Entry M)} (hkeys : (es.map bucketKey).Nodup) (ps : Buckets N M)
    (id : DocId N) (key : String) (k : DocId N) (p : PostingInfo N M) :
    lookup (putAll ps id es) key k = some p ↔
      (k = id ∧ ∃ entry ∈ es, bucketKey entry = key ∧ p = posting id entry) ∨
        ((k = id → ∀ entry ∈ es, bucketKey entry ≠ key) ∧ lookup ps key k = some p) := by
  induction es generalizing ps with
  | nil => simp [putAll]
  | cons entry rest ih =>
    rw [List.map_cons, List.nodup_cons] at hkeys
    have hrest := ih hkeys.2 (putPosting ps id entry)
    rw [putAll, List.foldl_cons]
    rw [putAll] at hrest
    rw [hrest, lookup_putPosting]
    by_cases hhere : key = bucketKey entry ∧ k = id
    · obtain ⟨hkey, hk⟩ := hhere
      have hout : ∀ x ∈ rest, bucketKey x ≠ key := by
        intro x hx heq
        exact hkeys.1 (hkey ▸ heq ▸ List.mem_map_of_mem hx)
      rw [if_pos ⟨hkey, hk⟩]
      constructor
      · rintro (⟨-, x, hx, heq, -⟩ | ⟨-, hp⟩)
        · exact absurd heq (hout x hx)
        · exact .inl ⟨hk, entry, List.mem_cons_self, hkey.symm, (Option.some.inj hp).symm⟩
      · rintro (⟨-, x, hx, heq, hp⟩ | ⟨hnone, -⟩)
        · rcases List.mem_cons.mp hx with rfl | hin
          · exact .inr ⟨fun _ => hout, congrArg some hp.symm⟩
          · exact absurd heq (hout x hin)
        · exact absurd hkey.symm (hnone hk entry List.mem_cons_self)
    · rw [if_neg hhere]
      have hne : k = id → bucketKey entry ≠ key := fun hk heq => hhere ⟨heq.symm, hk⟩
      constructor
      · rintro (⟨hk, x, hx, hrest⟩ | ⟨hnone, hp⟩)
        · exact .inl ⟨hk, x, List.mem_cons_of_mem _ hx, hrest⟩
        · refine .inr ⟨fun hk x hx => ?_, hp⟩
          rcases List.mem_cons.mp hx with rfl | hin
          · exact hne hk
          · exact hnone hk x hin
      · rintro (⟨hk, x, hx, heq, hp⟩ | ⟨hnone, hp⟩)
        · rcases List.mem_cons.mp hx with rfl | hin
          · exact absurd heq (hne hk)
          · exact .inl ⟨hk, x, hin, heq, hp⟩
        · exact .inr ⟨fun hk x hx => hnone hk x (List.mem_cons_of_mem _ hx), hp⟩

theorem named_putAll (ps : Buckets N M) (id : DocId N) (es : List (Entry M))
    (hget : (putAll ps id es).get key = some bucket) :
    (∃ old, ps.get key = some old ∧ old.field = bucket.field ∧ old.term = bucket.term) ∨
      ∃ entry ∈ es, bucketKey entry = key ∧ entry.field = bucket.field ∧
        entry.term = bucket.term := by
  induction es generalizing ps with
  | nil => exact .inl ⟨bucket, hget, rfl, rfl⟩
  | cons entry rest ih =>
    rcases ih (putPosting ps id entry) hget with ⟨old, hold, hfield, hterm⟩ | ⟨x, hx, hrest⟩
    · rw [putPosting, get_set] at hold
      split_ifs at hold with hkey
      · cases hbucket : ps.get (postingBucketKey entry.field entry.term) with
        | none =>
          rw [hbucket] at hold
          cases hold
          exact .inr ⟨entry, List.mem_cons_self, hkey.symm, hfield, hterm⟩
        | some first =>
          rw [hbucket] at hold
          cases hold
          exact .inl ⟨first, by rw [hkey, hbucket], hfield, hterm⟩
      · exact .inl ⟨old, hold, hfield, hterm⟩
    · exact .inr ⟨x, List.mem_cons_of_mem _ hx, hrest⟩

theorem foldl_addPosting (id : DocId N) (es : List (Entry M)) (engine : InMemorySearchFn N M P) :
    (es.foldl (addPosting o id) engine).postings = putAll engine.postings id es ∧
      (es.foldl (addPosting o id) engine).statsManager = engine.statsManager ∧
      (es.foldl (addPosting o id) engine).documents = engine.documents := by
  induction es generalizing engine with
  | nil => exact ⟨rfl, rfl, rfl⟩
  | cons entry rest ih => exact ih (addPosting o id engine entry)

theorem current_addPosting (id : DocId N) (es : List (Entry M))
    (engine : InMemorySearchFn N M P) (h : Current o engine.vocabulary engine.fuzzyCache) :
    Current o (es.foldl (addPosting o id) engine).vocabulary
      (es.foldl (addPosting o id) engine).fuzzyCache := by
  induction es generalizing engine with
  | nil => exact h
  | cons entry rest ih =>
    apply ih
    rw [addPosting]
    split_ifs
    · exact ⟨nodup_addToSet h.distinct _, fun _ _ _ hget => by cases hget⟩
    · exact h

theorem mem_vocabulary_addPosting (id : DocId N) (es : List (Entry M))
    (engine : InMemorySearchFn N M P) (term : String) :
    term ∈ (es.foldl (addPosting o id) engine).vocabulary ↔ term ∈ engine.vocabulary ∨
      ∃ entry ∈ es, entry.term = term ∧ isOwn o entry.metadata = true := by
  induction es generalizing engine with
  | nil => simp
  | cons entry rest ih =>
    have hfirst : term ∈ (addPosting o id engine entry).vocabulary ↔
        term ∈ engine.vocabulary ∨ (entry.term = term ∧ isOwn o entry.metadata = true) := by
      rw [addPosting]
      split_ifs with hown
      · rw [mem_addToSet]
        simp [hown, eq_comm]
      · simp [hown]
    rw [List.foldl_cons, ih, hfirst, or_assoc]
    refine or_congr_right ?_
    simp

/-- The document goes in among others. -/
def put (o : Options N M) (engine : InMemorySearchFn N M P) (id : DocId N)
    (doc : StoredDocument P) : InMemorySearchFn N M P :=
  (entries o doc).foldl (addPosting o id)
    { engine with
      statsManager := engine.statsManager.addDocument id (length o doc)
      documents := engine.documents.set id doc.payload }

theorem represents_put (h : Represents o engine docs) (hnone : docs.get id = none)
    (hapart : KeysApart o (docs.set id doc)) :
    Represents o (put o engine id doc) (docs.set id doc) := by
  have hhere : (docs.set id doc).get id = some doc := by rw [get_set, if_pos rfl]
  have hthere : ∀ k d, docs.get k = some d → (docs.set id doc).get k = some d := by
    intro k d hget
    rw [get_set]
    split_ifs with hk
    · rw [hk, hnone] at hget
      cases hget
    · exact hget
  have hstored : ∀ k d, (docs.set id doc).get k = some d →
      (k = id ∧ d = doc) ∨ (k ≠ id ∧ docs.get k = some d) := by
    intro k d hget
    rw [get_set] at hget
    split_ifs at hget with hk
    · exact .inl ⟨hk, (Option.some.inj hget).symm⟩
    · exact .inr ⟨hk, hget⟩
  have hkeys := nodup_bucketKeys hapart hhere
  obtain ⟨hpostings, hstats, hdocuments⟩ := foldl_addPosting (o := o) id (entries o doc)
    { engine with
      statsManager := engine.statsManager.addDocument id (length o doc)
      documents := engine.documents.set id doc.payload }
  have hcurrent := current_addPosting (o := o) id (entries o doc)
    { engine with
      statsManager := engine.statsManager.addDocument id (length o doc)
      documents := engine.documents.set id doc.payload } ⟨h.distinct, h.cache⟩
  have hlengths : engine.statsManager.lengths.get id = none := by
    rw [h.lengths, hnone]
    rfl
  have hadded : engine.statsManager.addDocument id (length o doc) =
      ⟨engine.statsManager.lengths.set id (length o doc),
        engine.statsManager.totalLength + length o doc,
        engine.statsManager.documentCount + 1⟩ := by
    rw [StatsManager.addDocument, hlengths]
  rw [put]
  refine ⟨hapart, fun key k p => ?_, fun key bucket hget => ?_, fun k => ?_, ?_, ?_, fun k => ?_,
    fun term => ?_, hcurrent.distinct, hcurrent.cache⟩
  · rw [hpostings, lookup_putAll hkeys, h.postings]
    constructor
    · rintro (⟨rfl, hentry⟩ | ⟨-, d, hd, hentry⟩)
      · exact ⟨doc, hhere, hentry⟩
      · exact ⟨d, hthere k d hd, hentry⟩
    · intro ⟨d, hd, hentry⟩
      rcases hstored k d hd with ⟨rfl, rfl⟩ | ⟨hk, hold⟩
      · exact .inl ⟨rfl, hentry⟩
      · exact .inr ⟨fun heq => absurd heq hk, d, hold, hentry⟩
  · rw [hpostings] at hget
    rcases named_putAll _ _ _ hget with ⟨old, hold, hfield, hterm⟩ | ⟨entry, hentry, hrest⟩
    · obtain ⟨k, d, hd, entry, hentry, hkey, hf, ht⟩ := h.named key old hold
      exact ⟨k, d, hthere k d hd, entry, hentry, hkey, hf.trans hfield, ht.trans hterm⟩
    · exact ⟨id, doc, hhere, entry, hentry, hrest⟩
  · rw [hstats]
    rw [hadded]
    rw [get_set, get_set, h.lengths]
    split_ifs
    · rfl
    · rfl
  · rw [hstats]
    rw [hadded, sum_set_new (length o) doc hnone]
    show engine.statsManager.totalLength + (length o doc : Nat) = _
    have htotal := h.totalLength
    omega
  · rw [hstats]
    rw [hadded, sum_set_new (fun _ => 1) doc hnone]
    rw [h.documentCount]
  · rw [hdocuments]
    rw [get_set, get_set, h.documents]
    split_ifs
    · rfl
    · rfl
  · rw [mem_vocabulary_addPosting]
    rw [h.vocabulary]
    constructor
    · rintro (⟨k, d, hd, hown⟩ | hown)
      · exact ⟨k, d, hthere k d hd, hown⟩
      · exact ⟨id, doc, hhere, hown⟩
    · intro ⟨k, d, hd, hown⟩
      rcases hstored k d hd with ⟨-, rfl⟩ | ⟨-, hold⟩
      · exact .inr hown
      · exact .inl ⟨k, d, hold, hown⟩

/-- The documents after a call of `add`: a document with the same id is replaced. -/
def storeInput (docs : Stored N P) (input : InMemoryAddDocumentInput N P) : Stored N P :=
  (docs.delete input.id).set input.id ⟨input.fields, input.store⟩

theorem represents_add (h : Represents o engine docs) {input : InMemoryAddDocumentInput N P}
    (hapart : KeysApart o (storeInput docs input))
    (hprunes : (docs.get input.id).isSome = true → RemovalPrunes o engine input.id) :
    Represents o (add o engine input) (storeInput docs input) := by
  have hnone : (docs.delete input.id).get input.id = none := by rw [get_delete, if_pos rfl]
  have hstored : (engine.documents.get input.id).isSome = (docs.get input.id).isSome := by
    rw [h.documents, Option.isSome_map]
  rw [add, hstored]
  split_ifs with hthere
  · exact represents_put (represents_remove h (hprunes hthere)) hnone hapart
  have hold : docs.delete input.id = docs := by
    apply delete_of_get_none
    simpa using hthere
  rw [storeInput, hold] at hapart ⊢
  rw [hold] at hnone
  exact represents_put h hnone hapart

/-! ## Clearing and importing -/

theorem represents_new : Represents o (newInstance : InMemorySearchFn N M P) OMap.empty where
  apart _ hdoc := by cases hdoc
  postings _ _ _ := ⟨fun h => (nomatch h), fun ⟨_, h, _⟩ => (nomatch h)⟩
  named _ _ h := by cases h
  lengths _ := rfl
  totalLength := rfl
  documentCount := rfl
  documents _ := rfl
  vocabulary _ := ⟨fun h => (nomatch h), fun ⟨_, _, h, _⟩ => (nomatch h)⟩
  distinct := List.nodup_nil
  cache _ _ _ h := by cases h

theorem load_spec {es : List (DocId N × Nat)} (hkeys : (es.map Prod.fst).Nodup) :
    (∀ k v, (StatsManager.load es).lengths.get k = some v ↔ (k, v) ∈ es) ∧
      (StatsManager.load es).totalLength = ((es.map Prod.snd).sum : Nat) ∧
      (StatsManager.load es).documentCount = es.length := by
  have hfold : ∀ (st : StatsManager N), (∀ e ∈ es, st.lengths.get e.1 = none) →
      (es.foldl (fun st e => st.addDocument e.1 e.2) st).lengths =
          es.foldl (fun m e => m.set e.1 e.2) st.lengths ∧
        (es.foldl (fun st e => st.addDocument e.1 e.2) st).totalLength =
          st.totalLength + ((es.map Prod.snd).sum : Nat) ∧
        (es.foldl (fun st e => st.addDocument e.1 e.2) st).documentCount =
          st.documentCount + es.length := by
    induction es with
    | nil => exact fun st _ => ⟨rfl, by simp, rfl⟩
    | cons e rest ih =>
      intro st hnew
      rw [List.map_cons, List.nodup_cons] at hkeys
      have hadded : st.addDocument e.1 e.2 =
          ⟨st.lengths.set e.1 e.2, st.totalLength + e.2, st.documentCount + 1⟩ := by
        rw [StatsManager.addDocument, hnew e List.mem_cons_self]
      have hrest : ∀ x ∈ rest, (st.addDocument e.1 e.2).lengths.get x.1 = none := by
        intro x hx
        have hne : x.1 ≠ e.1 := fun heq => hkeys.1 (heq ▸ List.mem_map_of_mem hx)
        rw [hadded]
        rw [get_set, if_neg hne]
        exact hnew x (List.mem_cons_of_mem _ hx)
      obtain ⟨hlengths, htotal, hcount⟩ := ih hkeys.2 _ hrest
      rw [List.foldl_cons, hlengths, htotal, hcount, hadded]
      refine ⟨rfl, ?_, ?_⟩
      · rw [List.map_cons, List.sum_cons]
        push_cast
        omega
      · rw [List.length_cons]
        show st.documentCount + 1 + rest.length = _
        omega
  obtain ⟨hlengths, htotal, hcount⟩ := hfold StatsManager.empty fun _ _ => rfl
  refine ⟨fun k v => ?_, ?_, ?_⟩
  · rw [StatsManager.load, hlengths]
    refine (get_fill_empty hkeys k v).trans ⟨fun ⟨e, he, hk, hv⟩ => ?_, fun hmem => ?_⟩
    · rwa [← hk, ← hv]
    · exact ⟨(k, v), hmem, rfl, rfl⟩
  · rw [StatsManager.load, htotal]
    exact Int.zero_add _
  · rw [StatsManager.load, hcount]
    exact Nat.zero_add _

/-- A bucket as it is imported. -/
def reimported (x : String × String × List (PostingInfo N M)) : PostingBucket N M where
  field := x.1
  term := x.2.1
  documents := x.2.2.foldl (fun m entry => m.set entry.docId entry) OMap.empty

theorem docId_of_get (h : Represents o engine docs) (hget : engine.postings.get key = some bucket)
    {p : PostingInfo N M} (hp : bucket.documents.get id = some p) : p.docId = id := by
  rw [← lookup_of_get hget] at hp
  obtain ⟨doc, -, entry, -, -, rfl⟩ := (h.postings key id p).mp hp
  rfl

theorem get_reimported (h : Represents o engine docs) (hget : engine.postings.get key = some bucket)
    (id : DocId N) :
    (reimported (exportBucket o bucket)).documents.get id = bucket.documents.get id := by
  have hperm : (exportBucket o bucket).2.2.Perm bucket.documents.values :=
    List.perm_insertionSort _ _
  have hids : bucket.documents.values.map PostingInfo.docId = bucket.documents.keys := by
    rw [OMap.values, OMap.keys, List.map_map]
    refine List.map_congr_left fun e he => ?_
    exact docId_of_get h hget ((mem_entries_iff_get _ _ _).mp he)
  have hkeys : ((exportBucket o bucket).2.2.map PostingInfo.docId).Nodup := by
    rw [(hperm.map _).nodup_iff, hids]
    exact bucket.documents.nodup
  apply Option.ext
  intro p
  refine (get_fill_empty hkeys id p).trans ?_
  constructor
  · rintro ⟨q, hq, hk, rfl⟩
    obtain ⟨k, hget'⟩ := (mem_values_iff_get _ _).mp (hperm.mem_iff.mp hq)
    rw [← hk, docId_of_get h hget hget', hget']
  · intro hp
    refine ⟨p, hperm.mem_iff.mpr ((mem_values_iff_get _ _).mpr ⟨id, hp⟩), ?_, rfl⟩
    exact docId_of_get h hget hp

theorem get_imported (h : Represents o engine docs) (engine' : InMemorySearchFn N M P)
    (key : String) (bucket' : PostingBucket N M) :
    (importSnapshot engine' (exportSnapshot o engine)).postings.get key = some bucket' ↔
      ∃ bucket, engine.postings.get key = some bucket ∧
        reimported (exportBucket o bucket) = bucket' := by
  have hperm : (exportSnapshot o engine).postings.Perm
      (engine.postings.values.map (exportBucket o)) := List.perm_insertionSort _ _
  have hnames : (engine.postings.values.map (exportBucket o)).map
      (fun x => postingBucketKey x.1 x.2.1) = engine.postings.keys := by
    rw [OMap.values, OMap.keys, List.map_map, List.map_map]
    refine List.map_congr_left fun e he => ?_
    exact bucket_key h ((mem_entries_iff_get _ _ _).mp he)
  have hkeys : ((exportSnapshot o engine).postings.map
      fun x => postingBucketKey x.1 x.2.1).Nodup := by
    rw [(hperm.map _).nodup_iff, hnames]
    exact engine.postings.nodup
  refine (get_fill_empty hkeys key bucket').trans ?_
  constructor
  · rintro ⟨x, hx, hk, hval⟩
    obtain ⟨bucket, hbucket, rfl⟩ := List.mem_map.mp (hperm.mem_iff.mp hx)
    obtain ⟨key', hget⟩ := (mem_values_iff_get _ _).mp hbucket
    have hname : postingBucketKey bucket.field bucket.term = key := hk
    rw [bucket_key h hget] at hname
    exact ⟨bucket, hname ▸ hget, hval⟩
  · rintro ⟨bucket, hget, hval⟩
    refine ⟨exportBucket o bucket, hperm.mem_iff.mpr (List.mem_map_of_mem ?_), ?_, hval⟩
    · exact (mem_values_iff_get _ _).mpr ⟨key, hget⟩
    · exact bucket_key h hget

theorem lookup_imported (h : Represents o engine docs) (engine' : InMemorySearchFn N M P)
    (key : String) (id : DocId N) :
    lookup (importSnapshot engine' (exportSnapshot o engine)).postings key id =
      lookup engine.postings key id := by
  cases hget : engine.postings.get key with
  | some bucket =>
    rw [lookup_of_get ((get_imported h engine' key _).mpr ⟨bucket, hget, rfl⟩),
      get_reimported h hget, lookup_of_get hget]
  | none =>
    have hnone : (importSnapshot engine' (exportSnapshot o engine)).postings.get key = none := by
      rw [Option.eq_none_iff_forall_ne_some]
      intro bucket' hbucket'
      obtain ⟨bucket, hbucket, -⟩ := (get_imported h engine' key bucket').mp hbucket'
      rw [hget] at hbucket
      cases hbucket
    rw [lookup, lookup, hnone, hget]

theorem foldl_addToSet (xs : List String) {ys : List String} (h : ys.Nodup) :
    (xs.foldl addToSet ys).Nodup ∧ ∀ y, y ∈ xs.foldl addToSet ys ↔ y ∈ ys ∨ y ∈ xs := by
  induction xs generalizing ys with
  | nil => exact ⟨h, fun y => by simp⟩
  | cons x rest ih =>
    obtain ⟨hnodup, hmem⟩ := ih (nodup_addToSet h x)
    refine ⟨hnodup, fun y => ?_⟩
    rw [List.foldl_cons, hmem, mem_addToSet, List.mem_cons, or_assoc]

/-- An instance that imports a snapshot holds what the exporting one held. -/
theorem represents_import (h : Represents o engine docs) (engine' : InMemorySearchFn N M P) :
    Represents o (importSnapshot engine' (exportSnapshot o engine)) docs := by
  have hstats : (exportSnapshot o engine).stats.Perm engine.statsManager.lengths.entries :=
    List.perm_insertionSort _ _
  have hdocuments : (exportSnapshot o engine).documents.Perm engine.documents.entries :=
    List.perm_insertionSort _ _
  have hterms : (exportSnapshot o engine).vocabulary.Perm engine.vocabulary :=
    List.perm_insertionSort _ _
  have hstatkeys : ((exportSnapshot o engine).stats.map Prod.fst).Nodup := by
    rw [(hstats.map _).nodup_iff]
    exact engine.statsManager.lengths.nodup
  have hdockeys : ((exportSnapshot o engine).documents.map Prod.fst).Nodup := by
    rw [(hdocuments.map _).nodup_iff]
    exact engine.documents.nodup
  obtain ⟨hlengths, htotal, hcount⟩ := load_spec hstatkeys
  have hsame : engine.statsManager.lengths.entries.Perm (docs.mapValues (length o)).entries := by
    apply perm_of_get_eq
    intro k
    rw [h.lengths, get_mapValues]
  have hvalues : ((exportSnapshot o engine).stats.map Prod.snd).Perm
      (docs.values.map (length o)) := by
    refine ((hstats.trans hsame).map Prod.snd).trans ?_
    rw [OMap.mapValues, OMap.values, List.map_map, List.map_map]
    exact List.Perm.refl _
  obtain ⟨hdistinct, hmem⟩ := foldl_addToSet (exportSnapshot o engine).vocabulary List.nodup_nil
  refine ⟨h.apart, fun key id p => ?_, fun key bucket' hget => ?_, fun id => ?_, ?_, ?_,
    fun id => ?_, fun term => ?_, hdistinct, fun _ _ _ hget => by cases hget⟩
  · rw [lookup_imported h]
    exact h.postings key id p
  · obtain ⟨bucket, hbucket, rfl⟩ := (get_imported h engine' key bucket').mp hget
    exact h.named key bucket hbucket
  · apply Option.ext
    intro n
    refine (hlengths id n).trans ?_
    rw [hstats.mem_iff, mem_entries_iff_get, h.lengths]
  · exact htotal.trans (congrArg Nat.cast hvalues.sum_eq)
  · refine hcount.trans ?_
    have hlength := hvalues.length_eq
    rw [List.length_map, List.length_map] at hlength
    rw [hlength]
    simp
  · apply Option.ext
    intro payload
    refine (get_fill_empty hdockeys id payload).trans ?_
    rw [← h.documents, ← mem_entries_iff_get, ← hdocuments.mem_iff]
    constructor
    · rintro ⟨e, he, rfl, rfl⟩
      exact he
    · intro he
      exact ⟨(id, payload), he, rfl, rfl⟩
  · refine (hmem term).trans ?_
    rw [hterms.mem_iff, h.vocabulary]
    simp

end SuperFunctions.SearchFn.SnapshotSteps
