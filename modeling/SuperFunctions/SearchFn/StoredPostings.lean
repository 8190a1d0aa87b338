import SuperFunctions.Lib.Views
import SuperFunctions.SearchFn.IndexedDb

/-!
# The cache of terms

What is found in the cache after it was read, written and swept, and when two pairs share a key.
-/
namespace SuperFunctions.SearchFn.TermCache

open IndexedDb List

variable {V : Type}

/-! ## Keys -/

/-- Neither the field nor the term has a colon. -/
def PlainPair (pair : Pair) : Prop := ':' ∉ pair.1.toList ∧ ':' ∉ pair.2.toList

instance (pair : Pair) : Decidable (PlainPair pair) :=
  inferInstanceAs (Decidable (':' ∉ pair.1.toList ∧ ':' ∉ pair.2.toList))

theorem toList_cacheKey (pair : Pair) :
    (cacheKey pair).toList = pair.1.toList ++ ':' :: pair.2.toList := by
  rw [cacheKey, String.toList_append, String.toList_append, append_assoc]
  rfl

theorem takeWhile_append_colon {field : List Char} (h : ':' ∉ field) (term : List Char) :
    (field ++ ':' :: term).takeWhile (· ≠ ':') = field := by
  induction field with
  | nil => rfl
  | cons c rest ih =>
    rw [mem_cons, not_or] at h
    rw [cons_append, takeWhile_cons, if_pos (by simpa using Ne.symm h.1), ih h.2]

theorem cacheKey_injective {pair other : Pair} (h : PlainPair pair)
    (heq : cacheKey other = cacheKey pair) : other = pair := by
  have hlists : other.1.toList ++ ':' :: other.2.toList =
      pair.1.toList ++ ':' :: pair.2.toList := by
    rw [← toList_cacheKey, ← toList_cacheKey, heq]
  have hcount := congrArg (List.count ':') hlists
  rw [count_append, count_append, count_cons_self, count_cons_self,
    count_eq_zero_of_not_mem h.1, count_eq_zero_of_not_mem h.2] at hcount
  have hother : ':' ∉ other.1.toList := by
    rw [← count_eq_zero]
    omega
  have hfields := congrArg (List.takeWhile (· ≠ ':')) hlists
  rw [takeWhile_append_colon hother, takeWhile_append_colon h.1] at hfields
  rw [hfields] at hlists
  have hterms := append_cancel_left hlists
  exact Prod.ext (String.toList_inj.mp hfields) (String.toList_inj.mp (List.cons.inj hterms).2)

/-! ## Entries -/

/-- The cache holds the value under the key. -/
def Holds (c : LruCache V) (key : String) (value : V) : Prop := (key, value) ∈ c.entries

variable {c : LruCache V} {key : String} {value : V}

theorem holds_of_get (h : (c.get key).1 = some value) : Holds c key value := by
  rw [LruCache.get] at h
  cases hfind : c.entries.find? fun e => decide (e.1 = key) with
  | none =>
    rw [hfind] at h
    cases h
  | some e =>
    rw [hfind] at h
    have hkey := find?_some hfind
    have hmem := mem_of_find?_eq_some hfind
    rwa [← Option.some.inj h, ← of_decide_eq_true hkey]

variable {key' : String}

theorem holds_get (h : Holds (c.get key).2 key' value) : Holds c key' value := by
  rw [LruCache.get] at h
  cases hfind : c.entries.find? fun e => decide (e.1 = key) with
  | none =>
    rwa [hfind] at h
  | some e =>
    rw [hfind] at h
    rcases mem_cons.mp h with heq | hin
    · have hmem := mem_of_find?_eq_some hfind
      rwa [← heq] at hmem
    · exact (mem_filter.mp hin).1

theorem holds_set {value' : V} (h : Holds (c.set key value) key' value') :
    (key' = key ∧ value' = value) ∨ (key' ≠ key ∧ Holds c key' value') := by
  have hmem : (key', value') ∈ (key, value) :: c.entries.filter fun e => e.1 ≠ key := by
    rw [Holds, LruCache.set] at h
    split_ifs at h
    · exact (dropLast_sublist _).mem h
    · exact h
  rcases mem_cons.mp hmem with heq | hin
  · cases heq
    exact .inl ⟨rfl, rfl⟩
  · obtain ⟨hold, hne⟩ := mem_filter.mp hin
    exact .inr ⟨of_decide_eq_true hne, hold⟩

theorem holds_delete (h : Holds (c.delete key) key' value) : key' ≠ key ∧ Holds c key' value := by
  obtain ⟨hold, hne⟩ := mem_filter.mp h
  exact ⟨of_decide_eq_true hne, hold⟩

end SuperFunctions.SearchFn.TermCache

/-!
# What a call makes of the postings

The posting of a document under a pair is the one in memory, or the stored one where the pair is
not in memory. A call changes what is seen this way, and remembers the pairs it changed.
-/
namespace SuperFunctions.SearchFn.StoredPostings

open Lib.OrderedMap Ingest IndexedDb List OMap Option

variable {M : Type} {storage : Storage M}

/-- The stored postings of a pair. -/
def chunk (storage : Storage M) (pair : Pair) : TermMap M :=
  (storage.chunks.get pair).getD OMap.empty

/-- The postings of a pair as the engine sees them. -/
def seen (storage : Storage M) (engine : Engine M) (pair : Pair) : TermMap M :=
  (engine.postings.get pair).getD (chunk storage pair)

def InMemory (engine : Engine M) (pair : Pair) : Prop := (engine.postings.get pair).isSome = true

instance (engine : Engine M) (pair : Pair) : Decidable (InMemory engine pair) :=
  inferInstanceAs (Decidable (_ = true))

theorem seen_of_inMemory {engine : Engine M} {pair : Pair} {termMap : TermMap M}
    (h : engine.postings.get pair = some termMap) : seen storage engine pair = termMap := by
  rw [seen, h]
  rfl

theorem mem_addToSet (xs : List Pair) (x y : Pair) : y ∈ addToSet xs x ↔ y = x ∨ y ∈ xs := by
  rw [addToSet]
  split_ifs with hx
  · constructor
    · exact Or.inr
    · rintro (rfl | hy)
      · exact hx
      · exact hy
  · rw [mem_append, mem_singleton, or_comm]

/-- An engine with other postings of some pairs. -/
structure Changed (engine engine' : Engine M) (pairs : List Pair) : Prop where
  inMemory : ∀ pair, InMemory engine' pair ↔ pair ∈ pairs ∨ InMemory engine pair
  dirty : ∀ pair, pair ∈ engine'.dirtyPostings ↔ pair ∈ pairs ∨ pair ∈ engine.dirtyPostings
  termCache : engine'.termCache = engine.termCache
  docTerms : engine'.docTerms = engine.docTerms

theorem changed_refl (engine : Engine M) : Changed engine engine [] :=
  ⟨by simp, by simp, rfl, rfl⟩

variable {pairs : List Pair}

theorem changed_cons {engine engine' engine'' : Engine M} {pair : Pair}
    (h : Changed engine engine' [pair]) (h' : Changed engine' engine'' pairs) :
    Changed engine engine'' (pair :: pairs) where
  inMemory x := by
    rw [h'.inMemory, h.inMemory, mem_singleton, mem_cons]
    tauto
  dirty x := by
    rw [h'.dirty, h.dirty, mem_singleton, mem_cons]
    tauto
  termCache := h'.termCache.trans h.termCache
  docTerms := h'.docTerms.trans h.docTerms

theorem changed_set (engine : Engine M) (pair : Pair) (termMap : TermMap M) :
    Changed engine
      { engine with
        postings := engine.postings.set pair termMap
        dirtyPostings := addToSet engine.dirtyPostings pair } [pair] where
  inMemory x := by
    rw [InMemory, InMemory, get_set, mem_singleton]
    split_ifs with hx
    · simp [hx]
    · simp [hx]
  dirty x := by
    rw [mem_addToSet, mem_singleton]
  termCache := rfl
  docTerms := rfl

/-! ## Removing a document -/

theorem removeTerm_eq (docId : String) (engine : Engine M) (pair : Pair) :
    removeTerm storage docId engine pair =
      { engine with
        postings := (loadTermFromDb storage engine pair).postings.set pair
          ((seen storage engine pair).delete docId)
        dirtyPostings := addToSet engine.dirtyPostings pair } := by
  rw [removeTerm, loadTermFromDb, seen, chunk]
  cases hget : engine.postings.get pair with
  | some termMap =>
    rw [hget]
    rfl
  | none =>
    rw [get_set, if_pos rfl]
    rfl

theorem get_loadTermFromDb (engine : Engine M) (pair x : Pair) :
    (loadTermFromDb storage engine pair).postings.get x =
      if x = pair then some (seen storage engine pair) else engine.postings.get x := by
  rw [loadTermFromDb, seen, chunk]
  cases hget : engine.postings.get pair with
  | some termMap =>
    split_ifs with hx
    · rw [hx, hget]
      rfl
    · rfl
  | none =>
    rw [get_set]
    rfl

theorem seen_removeTerm (docId : String) (engine : Engine M) (pair x : Pair) :
    seen storage (removeTerm storage docId engine pair) x =
      if x = pair then (seen storage engine pair).delete docId else seen storage engine x := by
  rw [removeTerm_eq, seen, get_set]
  split_ifs with hx
  · rfl
  · rw [get_loadTermFromDb, if_neg hx]
    rfl

theorem changed_removeTerm (docId : String) (engine : Engine M) (pair : Pair) :
    Changed engine (removeTerm storage docId engine pair) [pair] := by
  rw [removeTerm_eq]
  refine ⟨fun x => ?_, fun x => ?_, rfl, rfl⟩
  · rw [InMemory, InMemory, get_set, get_loadTermFromDb, mem_singleton]
    split_ifs with hx
    · simp [hx]
    · simp [hx]
  · rw [mem_addToSet, mem_singleton]

theorem foldl_removeTerm (docId : String) (pairs : List Pair) (engine : Engine M) :
    Changed engine (pairs.foldl (removeTerm storage docId) engine) pairs ∧
      ∀ x id, (seen storage (pairs.foldl (removeTerm storage docId) engine) x).get id =
        if x ∈ pairs ∧ id = docId then none else (seen storage engine x).get id := by
  induction pairs generalizing engine with
  | nil => exact ⟨changed_refl engine, by simp⟩
  | cons pair rest ih =>
    obtain ⟨hchanged, hseen⟩ := ih (removeTerm storage docId engine pair)
    refine ⟨changed_cons (changed_removeTerm docId engine pair) hchanged, fun x id => ?_⟩
    rw [foldl_cons, hseen, seen_removeTerm]
    simp only [mem_cons]
    by_cases hx : x = pair
    · rw [if_pos hx, get_delete, hx]
      by_cases hid : id = docId
      · simp [hid]
      · simp [hid]
    · simp only [hx, if_false, false_or]

/-! ## Adding a document -/

theorem foldl_upsertPosting (docId : String) {entries : List (Entry M)}
    (hnodup : (termsOf entries).Nodup) (engine : Engine M)
    (hknown : ∀ pair ∈ termsOf entries, InMemory engine pair ∨ storage.chunks.get pair = none) :
    Changed engine (entries.foldl (upsertPosting docId) engine) (termsOf entries) ∧
      ∀ x id, (seen storage (entries.foldl (upsertPosting docId) engine) x).get id =
        if id = docId then
          ((entries.find? fun entry => (entry.field, entry.term) = x).map fun entry =>
            (⟨entry.frequency, entry.metadata⟩ : PostingInfo M)).or ((seen storage engine x).get id)
        else (seen storage engine x).get id := by
  induction entries generalizing engine with
  | nil => exact ⟨changed_refl engine, by simp⟩
  | cons entry rest ih =>
    rw [termsOf, map_cons, nodup_cons] at hnodup
    have hfirst : Changed engine (upsertPosting docId engine entry)
        [(entry.field, entry.term)] := changed_set engine _ _
    have hrest : ∀ pair ∈ termsOf rest, InMemory (upsertPosting docId engine entry) pair ∨
        storage.chunks.get pair = none := by
      intro pair hpair
      rcases hknown pair (mem_cons_of_mem _ hpair) with hin | hnone
      · exact .inl ((hfirst.inMemory pair).mpr (.inr hin))
      · exact .inr hnone
    obtain ⟨hchanged, hseen⟩ := ih hnodup.2 (upsertPosting docId engine entry) hrest
    refine ⟨changed_cons hfirst hchanged, fun x id => ?_⟩
    have hone : (seen storage (upsertPosting docId engine entry) x).get id =
        if x = (entry.field, entry.term) ∧ id = docId then
          some ⟨entry.frequency, entry.metadata⟩ else (seen storage engine x).get id := by
      rw [seen, upsertPosting, get_set]
      by_cases hx : x = (entry.field, entry.term)
      · rw [if_pos hx, getD_some, get_set, hx]
        by_cases hid : id = docId
        · rw [if_pos hid, if_pos ⟨rfl, hid⟩]
        rw [if_neg hid, if_neg fun h => hid h.2, seen, chunk]
        rcases hknown (entry.field, entry.term) mem_cons_self with hin | hnone
        · obtain ⟨termMap, hget⟩ := isSome_iff_exists.mp hin
          rw [hget]
          rfl
        · rw [hnone]
          rfl
      · rw [if_neg hx, if_neg fun h => hx h.1, seen]
    rw [foldl_cons, hseen, hone, find?_cons]
    by_cases hx : (entry.field, entry.term) = x
    · have hnone : (rest.find? fun e => decide ((e.field, e.term) = x)) = none := by
        rw [find?_eq_none]
        intro e he heq
        have hmem : (e.field, e.term) ∈ rest.map fun e => (e.field, e.term) :=
          mem_map_of_mem (f := fun e => (e.field, e.term)) he
        rw [of_decide_eq_true heq, ← hx] at hmem
        exact hnodup.1 hmem
      rw [hnone, decide_eq_true hx]
      by_cases hid : id = docId
      · rw [if_pos hid, if_pos ⟨hx.symm, hid⟩, if_pos hid]
        rfl
      · rw [if_neg hid, if_neg fun h => hid h.2, if_neg hid]
    · rw [decide_eq_false hx]
      simp only [Ne.symm hx, false_and, if_false]

/-! ## Writing back -/

/-- What becomes of a dirty pair: nothing is kept without postings. -/
def kept (postings : Option (TermMap M)) : Option (TermMap M) :=
  postings.bind fun termMap => if termMap.entries = [] then none else some termMap

theorem foldl_persistPosting (state : OMap Pair (TermMap M) × OMap Pair (TermMap M)) (x : Pair) :
    (pairs.foldl persistPosting state).1.get x =
        (if x ∈ pairs then kept (state.2.get x) else state.1.get x) ∧
      (pairs.foldl persistPosting state).2.get x =
        if x ∈ pairs then kept (state.2.get x) else state.2.get x := by
  induction pairs generalizing state with
  | nil => simp
  | cons pair rest ih =>
    have hone : ((persistPosting state pair).1.get x =
        if x = pair then kept (state.2.get x) else state.1.get x) ∧
        (persistPosting state pair).2.get x =
          if x = pair then kept (state.2.get x) else state.2.get x := by
      rw [persistPosting]
      cases hget : state.2.get pair with
      | none =>
        rw [get_delete]
        split_ifs with hx
        · rw [hx, hget]
          exact ⟨rfl, rfl⟩
        · exact ⟨rfl, rfl⟩
      | some termMap =>
        dsimp only
        split_ifs with hempty hx hx
        · rw [get_delete, get_delete, if_pos hx, if_pos hx, hx, hget, kept,
            bind_some, if_pos hempty]
          exact ⟨rfl, rfl⟩
        · rw [get_delete, get_delete, if_neg hx, if_neg hx]
          exact ⟨rfl, rfl⟩
        · rw [get_set, if_pos hx, hx, hget, kept, bind_some, if_neg hempty]
          exact ⟨rfl, rfl⟩
        · rw [get_set, if_neg hx]
          exact ⟨rfl, rfl⟩
    have hkept : ∀ o : Option (TermMap M), kept (kept o) = kept o := by
      intro o
      cases o with
      | none => rfl
      | some termMap =>
        by_cases hempty : termMap.entries = []
        · simp [kept, hempty]
        · simp [kept, hempty]
    obtain ⟨hchunks, hpostings⟩ := ih (persistPosting state pair)
    rw [foldl_cons, hchunks, hpostings, hone.1, hone.2]
    by_cases hx : x = pair
    · by_cases hin : x ∈ rest
      · simp only [hx, if_true, mem_cons, true_or]
        rw [← hx, if_pos hin, hkept]
        simp
      · rw [if_neg hin, if_neg hin, if_pos hx, if_pos hx, if_pos (mem_cons.mpr (.inl hx)),
          if_pos (mem_cons.mpr (.inl hx))]
        exact ⟨rfl, rfl⟩
    · simp only [mem_cons, hx, if_false, false_or]
      trivial

theorem get_kept (postings : Option (TermMap M)) (id : String) :
    ((kept postings).getD OMap.empty).get id = (postings.getD OMap.empty).get id := by
  cases postings with
  | none => rfl
  | some termMap =>
    rw [kept, bind_some]
    split_ifs with hempty
    · exact ((entries_eq_nil_iff termMap).mp hempty id).symm
    · rfl

end SuperFunctions.SearchFn.StoredPostings
