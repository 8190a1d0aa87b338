import SuperFunctions.SearchFn.InMemorySearch

/-!
# What the index of the client holds

The index in terms of the documents that are stored, and how each call keeps it that way. A removal
looks for a term in the vocabulary only when a bucket of the term becomes empty, so it leaves a term
behind whose own postings are gone while prefixes of other documents stay.
-/
namespace SuperFunctions.SearchFn.SnapshotInvariant

open Lib.OrderedMap Ingest
open MemoryIndex (DocId PostingInfo fuzzyExpand)
open InMemorySearch List OMap

structure StoredDocument (P : Type) where
  fields : OMap String String
  payload : P

variable {N M P : Type} [DecidableEq N]

/-- The documents under their ids. -/
abbrev Stored (N P : Type) [DecidableEq N] := OMap (DocId N) (StoredDocument P)

section
variable (o : Options N M)

def entries (doc : StoredDocument P) : List (Entry M) := entriesOf o.setup.pipeline doc.fields

def length (doc : StoredDocument P) : Nat := totalLength o.setup.pipeline doc.fields

def bucketKey (entry : Entry M) : String := postingBucketKey entry.field entry.term

def posting (docId : DocId N) (entry : Entry M) : PostingInfo N M :=
  ⟨docId, entry.frequency, entry.metadata⟩

def lookup (postings : Buckets N M) (key : String) (docId : DocId N) : Option (PostingInfo N M) :=
  (postings.get key).bind fun bucket => bucket.documents.get docId

/-- A document has the term as a posting that is not a prefix. -/
def OwnedBy (doc : StoredDocument P) (term : String) : Prop :=
  ∃ entry ∈ entries o doc, entry.term = term ∧ isOwn o entry.metadata = true

def Owned (docs : Stored N P) (term : String) : Prop :=
  ∃ id doc, docs.get id = some doc ∧ OwnedBy o doc term

/-- Two postings of the documents have one bucket key only for one field and one term. -/
def KeysApart (docs : Stored N P) : Prop :=
  ∀ doc ∈ docs.values, ∀ doc' ∈ docs.values, ∀ entry ∈ entries o doc, ∀ entry' ∈ entries o doc',
    bucketKey entry = bucketKey entry' → entry.field = entry'.field ∧ entry.term = entry'.term

instance (docs : Stored N P) : Decidable (KeysApart o docs) :=
  inferInstanceAs (Decidable (∀ doc ∈ docs.values, _))

structure Represents (engine : InMemorySearchFn N M P) (docs : Stored N P) : Prop where
  apart : KeysApart o docs
  postings : ∀ key id p, lookup engine.postings key id = some p ↔
    ∃ doc, docs.get id = some doc ∧ ∃ entry ∈ entries o doc, bucketKey entry = key ∧
      p = posting id entry
  named : ∀ key bucket, engine.postings.get key = some bucket →
    ∃ id doc, docs.get id = some doc ∧ ∃ entry ∈ entries o doc, bucketKey entry = key ∧
      entry.field = bucket.field ∧ entry.term = bucket.term
  lengths : ∀ id, engine.statsManager.lengths.get id = (docs.get id).map (length o)
  totalLength : engine.statsManager.totalLength = ((docs.values.map (length o)).sum : Nat)
  documentCount : engine.statsManager.documentCount = (docs.values.map fun _ => 1).sum
  documents : ∀ id, engine.documents.get id = (docs.get id).map StoredDocument.payload
  vocabulary : ∀ term, term ∈ engine.vocabulary ↔ Owned o docs term
  distinct : engine.vocabulary.Nodup
  cache : ∀ term distance expansion, engine.fuzzyCache.get (term, distance) = some expansion →
    expansion = fuzzyExpand o.setup term distance engine.vocabulary

/-! ## Removing -/

/-- The document has a posting in the bucket that is not a prefix. -/
def ownPosting (bucket : PostingBucket N M) (id : DocId N) : Bool :=
  (bucket.documents.get id).any fun p => isOwn o p.metadata

/-- One of the term's buckets is left empty, and behind it the document has no own posting of
the term. -/
def Pruned (id : DocId N) (term : String) : List (String × PostingBucket N M) → Prop
  | [] => False
  | e :: rest =>
    (e.2.term = term ∧ (e.2.documents.delete id).entries = [] ∧
      ∀ x ∈ rest, x.2.term = term → ownPosting o x.2 id = false) ∨ Pruned id term rest

/-- Only this document has the term as its own. -/
def OnlyOwner (postings : Buckets N M) (id : DocId N) (term : String) : Prop :=
  ∀ e ∈ postings.entries, e.2.term = term → ∀ p ∈ e.2.documents.entries,
    isOwn o p.2.metadata = true → p.1 = id

/-- A removal drops the terms that no other document has as its own. -/
def RemovalPrunes (engine : InMemorySearchFn N M P) (id : DocId N) : Prop :=
  ∀ term ∈ engine.vocabulary, OnlyOwner o engine.postings id term →
    Pruned o id term engine.postings.entries

instance decidablePruned (id : DocId N) (term : String) : ∀ es, Decidable (Pruned o id term es)
  | [] => isFalse fun h => h
  | _ :: rest =>
    have := decidablePruned id term rest
    inferInstanceAs (Decidable ((_ ∧ _ ∧ _) ∨ _))

end

variable {o : Options N M}

/-- What is left of a bucket without a document. -/
def without (id : DocId N) (bucket : PostingBucket N M) : Option (PostingBucket N M) :=
  if (bucket.documents.delete id).entries = [] then none
  else some { bucket with documents := bucket.documents.delete id }

/-- What a turn of the loop makes of the buckets. -/
def dropPosting (id : DocId N) (ps : Buckets N M) (e : String × PostingBucket N M) : Buckets N M :=
  if (e.2.documents.delete id).entries = [] then ps.delete e.1
  else ps.set e.1 { e.2 with documents := e.2.documents.delete id }

theorem removePosting_fst (id : DocId N) (state : Removal N M)
    (e : String × PostingBucket N M) :
    (removePosting o id state e).1 = dropPosting id state.1 e := by
  obtain ⟨ps, vocabulary, cache⟩ := state
  rw [removePosting, dropPosting]
  dsimp only
  split_ifs
  · rfl
  · rfl
  · rfl

theorem foldl_removePosting_fst (id : DocId N) (es : List (String × PostingBucket N M))
    (state : Removal N M) :
    (es.foldl (removePosting o id) state).1 = es.foldl (dropPosting id) state.1 := by
  induction es generalizing state with
  | nil => rfl
  | cons e rest ih => rw [foldl_cons, ih, removePosting_fst, foldl_cons]

theorem get_dropPosting (id : DocId N) (ps : Buckets N M) (e : String × PostingBucket N M)
    (key : String) :
    (dropPosting id ps e).get key = if key = e.1 then without id e.2 else ps.get key := by
  rw [dropPosting, without]
  split_ifs with hempty hkey hkey
  · rw [get_delete, if_pos hkey]
  · rw [get_delete, if_neg hkey]
  · rw [get_set, if_pos hkey]
  · rw [get_set, if_neg hkey]

def dropDocument (id : DocId N) (ps : Buckets N M) : Buckets N M :=
  ps.entries.foldl (dropPosting id) ps

theorem get_dropDocument (id : DocId N) (ps : Buckets N M) (key : String) :
    (dropDocument id ps).get key = (ps.get key).bind (without id) := by
  rw [dropDocument, get_foldl_entries (get_dropPosting id)]
  cases ps.get key <;> rfl

variable {id : DocId N} {bucket : PostingBucket N M}

theorem get_without {left : PostingBucket N M} (h : without id bucket = some left) :
    left.field = bucket.field ∧ left.term = bucket.term ∧ left.documents.entries ≠ [] ∧
      ∀ k, left.documents.get k = if k = id then none else bucket.documents.get k := by
  rw [without] at h
  split_ifs at h with hempty
  cases h
  exact ⟨rfl, rfl, hempty, fun k => get_delete _ _ _⟩

theorem without_eq_none (h : without id bucket = none) {k : DocId N} (hk : k ≠ id) :
    bucket.documents.get k = none := by
  rw [without] at h
  split_ifs at h with hempty
  have hget := (entries_eq_nil_iff _).mp hempty k
  rwa [get_delete, if_neg hk] at hget

theorem lookup_dropDocument (id : DocId N) (ps : Buckets N M) (key : String) (k : DocId N) :
    lookup (dropDocument id ps) key k = if k = id then none else lookup ps key k := by
  rw [lookup, get_dropDocument, lookup]
  cases ps.get key with
  | none => simp
  | some bucket =>
    rw [Option.bind_some, Option.bind_some]
    cases hleft : without id bucket with
    | none =>
      split_ifs with hk
      · rfl
      · exact (without_eq_none hleft hk).symm
    | some left => exact (get_without hleft).2.2.2 k

/-! ## The vocabulary during a removal -/

/-- In the middle of the loop, with the buckets `es` still to come. -/
structure Midway (id : DocId N) (ps : Buckets N M) (es : List (String × PostingBucket N M)) :
    Prop where
  keys : (es.map Prod.fst).Nodup
  ahead : ∀ e ∈ es, ps.get e.1 = some e.2
  behind : ∀ key bucket, ps.get key = some bucket →
    (key, bucket) ∈ es ∨ bucket.documents.get id = none

theorem midway_start (id : DocId N) (ps : Buckets N M) : Midway id ps ps.entries where
  keys := ps.nodup
  ahead e he := (ps.mem_entries_iff_get e.1 e.2).mp he
  behind key bucket h := Or.inl ((ps.mem_entries_iff_get key bucket).mpr h)

variable {ps : Buckets N M} {es : List (String × PostingBucket N M)}
  {e : String × PostingBucket N M}

theorem Midway.key_ne (h : Midway id ps (e :: es)) : ∀ x ∈ es, x.1 ≠ e.1 := by
  intro x hx heq
  have hkeys := h.keys
  rw [map_cons, nodup_cons] at hkeys
  exact hkeys.1 (heq ▸ mem_map_of_mem hx)

theorem Midway.next (h : Midway id ps (e :: es)) : Midway id (dropPosting id ps e) es where
  keys := (nodup_cons.mp h.keys).2
  ahead x hx := by
    rw [get_dropPosting, if_neg (h.key_ne x hx)]
    exact h.ahead x (mem_cons_of_mem _ hx)
  behind key bucket hget := by
    rw [get_dropPosting] at hget
    split_ifs at hget with hkey
    · right
      rw [(get_without hget).2.2.2, if_pos rfl]
    rcases h.behind key bucket hget with hmem | hnone
    · rcases mem_cons.mp hmem with heq | hin
      · exact absurd (congrArg Prod.fst heq) hkey
      · exact Or.inl hin
    · exact Or.inr hnone

/-- Another document has the term as its own. -/
def OwnedElsewhere (o : Options N M) (ps : Buckets N M) (id : DocId N) (term : String) : Prop :=
  ∃ key bucket k, ps.get key = some bucket ∧ bucket.term = term ∧ k ≠ id ∧
    ownPosting o bucket k = true

theorem ownPosting_iff :
    ownPosting o bucket id = true ↔
      ∃ p, bucket.documents.get id = some p ∧ isOwn o p.metadata = true := by
  rw [ownPosting, Option.any_eq_true]

theorem onlyOwner_or (ps : Buckets N M) (id : DocId N) (term : String) :
    OnlyOwner o ps id term ∨ OwnedElsewhere o ps id term := by
  by_cases honly : OnlyOwner o ps id term
  · exact Or.inl honly
  right
  rw [OnlyOwner] at honly
  push Not at honly
  obtain ⟨e, he, hterm, p, hp, hown, hne⟩ := honly
  refine ⟨e.1, e.2, p.1, (ps.mem_entries_iff_get _ _).mp he, hterm, hne, ?_⟩
  exact ownPosting_iff.mpr ⟨p.2, (mem_entries_iff_get _ _ _).mp hp, hown⟩

variable {term : String}

theorem hasRemaining_iff : hasRemainingVocabularyEntry o ps term = true ↔
      ∃ key bucket k, ps.get key = some bucket ∧ bucket.term = term ∧
        ownPosting o bucket k = true := by
  rw [hasRemainingVocabularyEntry, any_eq_true]
  constructor
  · intro ⟨bucket, hbucket, hboth⟩
    rw [Bool.and_eq_true, decide_eq_true_iff, any_eq_true] at hboth
    obtain ⟨hterm, p, hp, hown⟩ := hboth
    obtain ⟨key, hkey⟩ := (mem_values_iff_get _ _).mp hbucket
    obtain ⟨k, hk⟩ := (mem_values_iff_get _ _).mp hp
    exact ⟨key, bucket, k, hkey, hterm, ownPosting_iff.mpr ⟨p, hk, hown⟩⟩
  · intro ⟨key, bucket, k, hkey, hterm, hown⟩
    obtain ⟨p, hp, hmeta⟩ := ownPosting_iff.mp hown
    refine ⟨bucket, (mem_values_iff_get _ _).mpr ⟨key, hkey⟩, ?_⟩
    rw [Bool.and_eq_true, decide_eq_true_iff, any_eq_true]
    exact ⟨hterm, p, (mem_values_iff_get _ _).mpr ⟨k, hp⟩, hmeta⟩

theorem OwnedElsewhere.next (hmid : Midway id ps (e :: es)) (h : OwnedElsewhere o ps id term) :
    OwnedElsewhere o (dropPosting id ps e) id term := by
  obtain ⟨key, bucket, k, hget, hterm, hk, hown⟩ := h
  obtain ⟨p, hp, hmeta⟩ := ownPosting_iff.mp hown
  by_cases hkey : key = e.1
  · have hbucket : bucket = e.2 := by
      have hhere := hmid.ahead e mem_cons_self
      rw [← hkey, hget] at hhere
      exact Option.some.inj hhere
    rw [hbucket] at hp hterm
    cases hleft : without id e.2 with
    | none =>
      rw [without_eq_none hleft hk] at hp
      cases hp
    | some left =>
      obtain ⟨-, hname, -, hdocs⟩ := get_without hleft
      refine ⟨key, left, k, ?_, hname.trans hterm, hk, ownPosting_iff.mpr ⟨p, ?_, hmeta⟩⟩
      · rw [get_dropPosting, if_pos hkey, hleft]
      · rw [hdocs, if_neg hk, hp]
  · refine ⟨key, bucket, k, ?_, hterm, hk, hown⟩
    rw [get_dropPosting, if_neg hkey, hget]

theorem mem_removePosting (id : DocId N) (state : Removal N M) (e : String × PostingBucket N M)
    (term : String) :
    term ∈ (removePosting o id state e).2.1 ↔ term ∈ state.2.1 ∧
      ¬ (e.2.term = term ∧ (e.2.documents.delete id).entries = [] ∧
        hasRemainingVocabularyEntry o (dropPosting id state.1 e) term = false) := by
  obtain ⟨ps, vocabulary, cache⟩ := state
  rw [removePosting, dropPosting]
  dsimp only
  split_ifs with hempty hleft
  · refine ⟨fun h => ⟨h, fun hgone => ?_⟩, And.left⟩
    rw [← hgone.1, hleft] at hgone
    cases hgone.2.2
  · rw [mem_filter, decide_eq_true_iff]
    refine and_congr_right fun _ => ⟨fun hne hgone => hne hgone.1.symm, fun hkept heq => ?_⟩
    apply hkept
    rw [heq]
    exact ⟨rfl, hempty, by simpa using hleft⟩
  · simp [hempty]

variable {state : Removal N M}

theorem mem_removal_of_elsewhere (hmid : Midway id state.1 es)
    (h : OwnedElsewhere o state.1 id term) :
    term ∈ (es.foldl (removePosting o id) state).2.1 ↔ term ∈ state.2.1 := by
  induction es generalizing state with
  | nil => exact Iff.rfl
  | cons e rest ih =>
    have hnext := h.next hmid
    have hfst := removePosting_fst (o := o) id state e
    rw [foldl_cons, ih (by rw [hfst]; exact hmid.next) (by rw [hfst]; exact hnext),
      mem_removePosting, and_iff_left]
    intro hgone
    obtain ⟨key, bucket, k, hget, hterm, -, hown⟩ := hnext
    rw [hasRemaining_iff.mpr ⟨key, bucket, k, hget, hterm, hown⟩] at hgone
    cases hgone.2.2

theorem not_ownedElsewhere_next (h : ¬ OwnedElsewhere o ps id term) (hget : ps.get e.1 = some e.2) :
    ¬ OwnedElsewhere o (dropPosting id ps e) id term := by
  intro ⟨key, bucket, k, hbucket, hterm, hk, hown⟩
  rw [get_dropPosting] at hbucket
  split_ifs at hbucket with hkey
  · obtain ⟨-, hname, -, hdocs⟩ := get_without hbucket
    obtain ⟨p, hp, hmeta⟩ := ownPosting_iff.mp hown
    rw [hdocs, if_neg hk] at hp
    exact h ⟨e.1, e.2, k, hget, hname.symm.trans hterm, hk, ownPosting_iff.mpr ⟨p, hp, hmeta⟩⟩
  · exact h ⟨key, bucket, k, hbucket, hterm, hk, hown⟩

theorem mem_removal_of_only (hmid : Midway id state.1 es) (h : ¬ OwnedElsewhere o state.1 id term) :
    term ∈ (es.foldl (removePosting o id) state).2.1 ↔
      term ∈ state.2.1 ∧ ¬ Pruned o id term es := by
  induction es generalizing state with
  | nil => simp [Pruned]
  | cons e rest ih =>
    have hnext := not_ownedElsewhere_next h (hmid.ahead e mem_cons_self)
    have hfst := removePosting_fst (o := o) id state e
    rw [foldl_cons, ih (by rw [hfst]; exact hmid.next) (by rw [hfst]; exact hnext),
      mem_removePosting, Pruned, not_or, and_assoc]
    refine and_congr_right fun _ => and_congr_left fun _ => not_congr ?_
    refine and_congr_right fun _ => and_congr_right fun _ => ?_
    rw [← Bool.not_eq_true, hasRemaining_iff]
    constructor
    · intro hnone x hx hterm
      rw [← Bool.not_eq_true]
      exact fun hown => hnone ⟨x.1, x.2, id, hmid.next.ahead x hx, hterm, hown⟩
    intro hahead ⟨key, bucket, k, hget, hterm, hown⟩
    have hk : k = id := by
      by_contra hne
      exact hnext ⟨key, bucket, k, hget, hterm, hne, hown⟩
    rw [hk] at hown
    obtain ⟨p, hp, -⟩ := ownPosting_iff.mp hown
    rcases hmid.next.behind key bucket hget with hin | hnone
    · rw [hahead (key, bucket) hin hterm] at hown
      cases hown
    · rw [hnone] at hp
      cases hp

end SuperFunctions.SearchFn.SnapshotInvariant
