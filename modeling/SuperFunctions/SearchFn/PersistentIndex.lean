import SuperFunctions.SearchFn.StoredPostings

/-!
# The stored index loses no postings

As long as a pair of a new document is in memory, or nothing is stored for it, every way to the
postings of a pair leads to those of the documents that are indexed.
-/
namespace SuperFunctions.SearchFn.PersistentIndex

open Lib.OrderedMap Ingest IndexedDb TermCache StoredPostings OMap Option List

section
variable {M : Type} {p : Pipeline M} {storage : Storage M} {engine : Engine M} {docs : Documents M}

/-! ## Careful calls -/

/-- What `index` asks of its documents, where the pairs `loaded` are in memory by the time the
first of them is added. -/
def SafeDocuments (p : Pipeline M) (storage : Storage M) (engine : Engine M) :
    List Pair → List Document → Prop
  | _, [] => True
  | loaded, doc :: rest =>
    let pairs := termsOf (entriesOf p doc.fields)
    let loaded := loaded ++ (engine.docTerms.get doc.id).getD []
    doc.id ≠ "__proto__" ∧
      (∀ pair ∈ pairs, PlainPair pair ∧
        (pair ∈ loaded ∨ InMemory engine pair ∨ (storage.chunks.get pair).isNone = true)) ∧
      SafeDocuments p storage engine (loaded ++ pairs) rest

instance decidableSafeDocuments (p : Pipeline M) (storage : Storage M) (engine : Engine M) :
    ∀ loaded docs, Decidable (SafeDocuments p storage engine loaded docs)
  | _, [] => isTrue trivial
  | loaded, doc :: rest => by
    unfold SafeDocuments
    have := decidableSafeDocuments p storage engine
      (loaded ++ (engine.docTerms.get doc.id).getD [] ++ termsOf (entriesOf p doc.fields)) rest
    infer_instance

/-- Every pair of a document that is indexed is in memory, or comes into memory with the earlier
version of a document of the call, or has no chunk. -/
def Careful (p : Pipeline M) (maxEntries : Nat) (adapter : Adapter M) : Action → Prop
  | .index documents => SafeDocuments p adapter.storage
      (adapter.engine.getD (openEngine maxEntries adapter.storage)) [] documents
  | _ => True

instance (maxEntries : Nat) (adapter : Adapter M) (action : Action) :
    Decidable (Careful p maxEntries adapter action) := by
  unfold Careful
  split <;> infer_instance

/-! ## The invariant -/

structure WellFormed (docs : Documents M) : Prop where
  ids : ∀ id entries, docs.get id = some entries → id ≠ "__proto__"
  nodup : ∀ id entries, docs.get id = some entries → (termsOf entries).Nodup
  plain : ∀ id entries, docs.get id = some entries → ∀ pair ∈ termsOf entries, PlainPair pair

/-- In the middle of a call: what is stored is behind for the dirty pairs alone. -/
structure Working (storage : Storage M) (engine : Engine M) (docs : Documents M) : Prop where
  seen : ∀ pair, Exact docs pair (seen storage engine pair)
  settled : ∀ pair, pair ∉ engine.dirtyPostings → Exact docs pair (chunk storage pair)
  dirty : ∀ pair ∈ engine.dirtyPostings, InMemory engine pair
  cached : ∀ key termMap, Holds engine.termCache key termMap → ∀ pair, cacheKey pair = key →
    pair ∉ engine.dirtyPostings → Exact docs pair termMap
  docTerms : ∀ id, engine.docTerms.get id = (docs.get id).map termsOf
  wellFormed : WellFormed docs

/-- Between two calls. -/
structure Represents (adapter : Adapter M) (docs : Documents M) : Prop where
  stored : ∀ pair, Exact docs pair (chunk adapter.storage pair)
  chunks : ∀ pair termMap, adapter.storage.chunks.get pair = some termMap → termMap.entries ≠ []
  docTerms : ∀ id, adapter.storage.docTerms.get id = (docs.get id).map termsOf
  opened : ∀ engine ∈ adapter.engine,
    Working adapter.storage engine docs ∧ engine.dirtyPostings = []
  wellFormed : WellFormed docs

/-! ## Postings that are expected -/

variable {id : String} {entries : List (Entry M)} {pair : Pair}

theorem expected_of_not_mem (h : docs.get id = some entries) (hpair : pair ∉ termsOf entries) :
    expected docs pair id = none := by
  rw [expected, h, bind_some, map_eq_none_iff, find?_eq_none]
  intro entry hentry heq
  have hmem : (entry.field, entry.term) ∈ termsOf entries :=
    mem_map_of_mem (f := fun entry => (entry.field, entry.term)) hentry
  rw [of_decide_eq_true heq] at hmem
  exact hpair hmem

theorem expected_delete (pair : Pair) (id id' : String) :
    expected (docs.delete id) pair id' = if id' = id then none else expected docs pair id' := by
  rw [expected, expected, get_delete]
  split_ifs
  · rfl
  · rfl

theorem expected_set (pair : Pair) (id id' : String) (entries : List (Entry M)) :
    expected (docs.set id entries) pair id' =
      if id' = id then
        (entries.find? fun entry => (entry.field, entry.term) = pair).map fun entry =>
          ⟨entry.frequency, entry.metadata⟩
      else expected docs pair id' := by
  rw [expected, expected, get_set]
  split_ifs
  · rfl
  · rfl

theorem plain_of_expected (h : WellFormed docs) {posting : PostingInfo M}
    (hexpected : expected docs pair id = some posting) : PlainPair pair := by
  cases hget : docs.get id with
  | none =>
    rw [expected, hget] at hexpected
    cases hexpected
  | some entries =>
    by_cases hin : pair ∈ termsOf entries
    · exact h.plain id entries hget pair hin
    · rw [expected_of_not_mem hget hin] at hexpected
      cases hexpected

theorem wellFormed_delete (h : WellFormed docs) (id : String) : WellFormed (docs.delete id) := by
  have hold : ∀ id' entries, (docs.delete id).get id' = some entries →
      docs.get id' = some entries := by
    intro id' entries hget
    rw [get_delete] at hget
    split_ifs at hget
    exact hget
  exact ⟨fun id' entries hget => h.ids id' entries (hold id' entries hget),
    fun id' entries hget => h.nodup id' entries (hold id' entries hget),
    fun id' entries hget => h.plain id' entries (hold id' entries hget)⟩

/-! ## Removing -/

/-- What remains to be shown when the postings of `terms` are changed. -/
theorem working_changed (h : Working storage engine docs) {engine' : Engine M} {terms : List Pair}
    (hchanged : Changed engine engine' terms) {docs' : Documents M}
    (hseen : ∀ pair, Exact docs' pair (seen storage engine' pair))
    (hother : ∀ pair, pair ∉ terms → ∀ id', expected docs' pair id' = expected docs pair id')
    {docTerms : OMap String (List Pair)}
    (hdocTerms : ∀ id, docTerms.get id = (docs'.get id).map termsOf) (hdocs : WellFormed docs') :
    Working storage { engine' with docTerms := docTerms } docs' := by
  refine ⟨hseen, fun pair hpair id' => ?_, fun pair hpair => ?_,
    fun key termMap hholds pair hkey hpair id' => ?_, hdocTerms, hdocs⟩
  · have hnot := mt (hchanged.dirty pair).mpr hpair
    rw [not_or] at hnot
    rw [hother pair hnot.1]
    exact h.settled pair hnot.2 id'
  · rcases (hchanged.dirty pair).mp hpair with hin | hold
    · exact (hchanged.inMemory pair).mpr (.inl hin)
    · exact (hchanged.inMemory pair).mpr (.inr (h.dirty pair hold))
  · have hnot := mt (hchanged.dirty pair).mpr hpair
    rw [not_or] at hnot
    rw [hother pair hnot.1]
    have hholds' : Holds engine.termCache key termMap := by
      rwa [← hchanged.termCache]
    exact h.cached key termMap hholds' pair hkey hnot.2 id'

theorem working_removeDocById (h : Working storage engine docs) (id : String) :
    Working storage (removeDocById storage engine id) (docs.delete id) := by
  have hterms := h.docTerms id
  rw [removeDocById]
  cases hget : docs.get id with
  | none =>
    rw [hget] at hterms
    rwa [hterms, delete_of_get_none hget]
  | some entries =>
    rw [hget, map_some] at hterms
    rw [hterms]
    have hfold : Changed engine ((termsOf entries).foldl (removeTerm storage id) engine)
          (termsOf entries) ∧
        ∀ x id', (StoredPostings.seen storage
          ((termsOf entries).foldl (removeTerm storage id) engine) x).get id' =
            if x ∈ termsOf entries ∧ id' = id then none
            else (StoredPostings.seen storage engine x).get id' := foldl_removeTerm id _ _
    obtain ⟨hchanged, hseen⟩ := hfold
    have hother : ∀ pair, pair ∉ termsOf entries → ∀ id',
        expected (docs.delete id) pair id' = expected docs pair id' := by
      intro pair hpair id'
      rw [expected_delete]
      split_ifs with hid
      · rw [hid, expected_of_not_mem hget hpair]
      · rfl
    refine working_changed h hchanged (fun pair id' => ?_) hother (fun id' => ?_)
      (wellFormed_delete h.wellFormed id)
    · refine (hseen pair id').trans ?_
      rw [h.seen pair id', expected_delete]
      by_cases hid : id' = id
      · rw [if_pos hid]
        split_ifs with hin
        · rfl
        · rw [hid]
          exact expected_of_not_mem hget fun hmem => hin ⟨hmem, hid⟩
      · rw [if_neg hid, if_neg fun hboth => hid hboth.2]
    · show ((((termsOf entries).foldl (removeTerm storage id) engine).docTerms).delete id).get id' = _
      rw [hchanged.docTerms, get_delete, get_delete, h.docTerms]
      split_ifs
      · rfl
      · rfl

theorem inMemory_removeDocById (id : String) (pair : Pair) :
    InMemory (removeDocById storage engine id) pair ↔
      pair ∈ (engine.docTerms.get id).getD [] ∨ InMemory engine pair := by
  rw [removeDocById]
  cases hget : engine.docTerms.get id with
  | none => simp
  | some terms => exact (foldl_removeTerm id terms engine).1.inMemory pair

/-! ## Adding -/

theorem working_addEntries (h : Working storage engine docs) (hnone : docs.get id = none)
    (hid : id ≠ "__proto__") (hnodup : (termsOf entries).Nodup)
    (hplain : ∀ pair ∈ termsOf entries, PlainPair pair)
    (hknown : ∀ pair ∈ termsOf entries, InMemory engine pair ∨ storage.chunks.get pair = none) :
    Working storage
      { entries.foldl (upsertPosting id) engine with
        docTerms := (entries.foldl (upsertPosting id) engine).docTerms.set id (termsOf entries) }
      (docs.set id entries) := by
  obtain ⟨hchanged, hseen⟩ := foldl_upsertPosting id hnodup engine hknown
  have hfresh : ∀ pair, expected docs pair id = none := by
    intro pair
    rw [expected, hnone]
    rfl
  have hother : ∀ pair, pair ∉ termsOf entries → ∀ id',
      expected (docs.set id entries) pair id' = expected docs pair id' := by
    intro pair hpair id'
    by_cases hsame : id' = id
    · have hset : (docs.set id entries).get id = some entries := by rw [get_set, if_pos rfl]
      rw [hsame, hfresh, expected_of_not_mem hset hpair]
    · rw [expected_set, if_neg hsame]
  have hwellFormed : WellFormed (docs.set id entries) := by
    have hcases : ∀ id' es, (docs.set id entries).get id' = some es →
        (id' = id ∧ es = entries) ∨ docs.get id' = some es := by
      intro id' es hget
      rw [get_set] at hget
      split_ifs at hget with hsame
      · exact .inl ⟨hsame, (some.inj hget).symm⟩
      · exact .inr hget
    refine ⟨fun id' es hget => ?_, fun id' es hget => ?_, fun id' es hget => ?_⟩
    · obtain ⟨rfl, -⟩ | hold := hcases id' es hget
      · exact hid
      · exact h.wellFormed.ids id' es hold
    · obtain ⟨-, rfl⟩ | hold := hcases id' es hget
      · exact hnodup
      · exact h.wellFormed.nodup id' es hold
    · obtain ⟨-, rfl⟩ | hold := hcases id' es hget
      · exact hplain
      · exact h.wellFormed.plain id' es hold
  refine working_changed h hchanged (fun pair id' => ?_) hother (fun id' => ?_) hwellFormed
  · refine (hseen pair id').trans ?_
    rw [h.seen pair id', expected_set]
    split_ifs with hsame
    · rw [hsame, hfresh, or_none]
    · rfl
  · show ((entries.foldl (upsertPosting id) engine).docTerms.set id (termsOf entries)).get id' = _
    rw [hchanged.docTerms, get_set, get_set, h.docTerms]
    split_ifs
    · rfl
    · rfl

theorem nodup_termsOf (fields : OMap String String) :
    (termsOf (entriesOf p fields)).Nodup := nodup_entriesOf fields

theorem working_putDocument (h : Working storage engine docs) {doc : Document}
    (hid : doc.id ≠ "__proto__")
    (hsafe : ∀ pair ∈ termsOf (entriesOf p doc.fields), PlainPair pair ∧
      (pair ∈ (engine.docTerms.get doc.id).getD [] ∨ InMemory engine pair ∨
        storage.chunks.get pair = none)) :
    Working storage (putDocument p storage engine doc) (putLatest p docs doc) := by
  have hremoved := working_removeDocById h doc.id
  rw [putDocument, putLatest]
  split_ifs
  · exact hremoved
  refine working_addEntries hremoved ?_ hid (nodup_termsOf doc.fields)
    (fun pair hpair => (hsafe pair hpair).1) fun pair hpair => ?_
  · rw [get_delete, if_pos rfl]
  · rcases (hsafe pair hpair).2 with hterms | hin | hnone
    · exact .inl ((inMemory_removeDocById doc.id pair).mpr (.inl hterms))
    · exact .inl ((inMemory_removeDocById doc.id pair).mpr (.inr hin))
    · exact .inr hnone

theorem inMemory_putDocument (doc : Document) :
    (∀ pair, InMemory engine pair ∨ pair ∈ (engine.docTerms.get doc.id).getD [] ∨
        pair ∈ termsOf (entriesOf p doc.fields) →
      InMemory (putDocument p storage engine doc) pair) ∧
    ∀ id, id ≠ doc.id →
      (putDocument p storage engine doc).docTerms.get id = engine.docTerms.get id := by
  have hkept : ∀ id, id ≠ doc.id →
      (removeDocById storage engine doc.id).docTerms.get id = engine.docTerms.get id := by
    intro id hne
    rw [removeDocById]
    split
    · rfl
    · next terms _ =>
      show ((terms.foldl (removeTerm storage doc.id) engine).docTerms.delete doc.id).get id = _
      rw [(foldl_removeTerm doc.id terms engine).1.docTerms, get_delete, if_neg hne]
  have hupserts : ∀ (es : List (Entry M)) (engine : Engine M),
      (∀ pair, pair ∈ termsOf es ∨ InMemory engine pair →
        InMemory (es.foldl (upsertPosting doc.id) engine) pair) ∧
      (es.foldl (upsertPosting doc.id) engine).docTerms = engine.docTerms := by
    intro es
    induction es with
    | nil => exact fun engine => ⟨fun pair hpair => hpair.elim (by intro hin; cases hin) id, rfl⟩
    | cons entry rest ih =>
      intro engine
      have hone : Changed engine (upsertPosting doc.id engine entry)
          [(entry.field, entry.term)] := changed_set engine _ _
      obtain ⟨hmemory, hdocTerms⟩ := ih (upsertPosting doc.id engine entry)
      refine ⟨fun pair hpair => hmemory pair ?_, hdocTerms.trans hone.docTerms⟩
      rcases hpair with hin | hold
      · rcases mem_cons.mp hin with heq | hrest
        · exact .inr ((hone.inMemory pair).mpr (.inl (mem_singleton.mpr heq)))
        · exact .inl hrest
      · exact .inr ((hone.inMemory pair).mpr (.inr hold))
  rw [putDocument]
  split_ifs with hzero
  · refine ⟨fun pair hpair => (inMemory_removeDocById doc.id pair).mpr ?_, hkept⟩
    rcases hpair with hin | hterms | hnew
    · exact .inr hin
    · exact .inl hterms
    · rw [entriesOf_eq_nil hzero] at hnew
      cases hnew
  · obtain ⟨hmemory, hdocTerms⟩ := hupserts (entriesOf p doc.fields)
      (removeDocById storage engine doc.id)
    refine ⟨fun pair hpair => hmemory pair ?_, fun id hne => ?_⟩
    · rcases hpair with hin | hterms | hnew
      · exact .inr ((inMemory_removeDocById doc.id pair).mpr (.inr hin))
      · exact .inr ((inMemory_removeDocById doc.id pair).mpr (.inl hterms))
      · exact .inl hnew
    · show (((entriesOf p doc.fields).foldl (upsertPosting doc.id)
        (removeDocById storage engine doc.id)).docTerms.set doc.id _).get id = _
      rw [hdocTerms, get_set, if_neg hne, hkept id hne]

/-- The documents of a call, one after the other. `start` is the engine the call began with. -/
theorem working_putDocuments {start : Engine M} (documents : List Document)
    (h : Working storage engine docs) {loaded : List Pair}
    (hsafe : SafeDocuments p storage start loaded documents)
    (hmemory : ∀ pair, pair ∈ loaded ∨ InMemory start pair → InMemory engine pair)
    (hterms : ∀ id, engine.docTerms.get id = start.docTerms.get id ∨
      ∀ pair ∈ (start.docTerms.get id).getD [], InMemory engine pair) :
    Working storage (documents.foldl (putDocument p storage) engine)
      (documents.foldl (putLatest p) docs) := by
  induction documents generalizing engine docs loaded with
  | nil => exact h
  | cons doc rest ih =>
    obtain ⟨hid, hpairs, hrest⟩ := hsafe
    have hone : (∀ pair, InMemory engine pair ∨ pair ∈ (engine.docTerms.get doc.id).getD [] ∨
          pair ∈ termsOf (entriesOf p doc.fields) →
        InMemory (putDocument p storage engine doc) pair) ∧
        ∀ id, id ≠ doc.id →
          (putDocument p storage engine doc).docTerms.get id = engine.docTerms.get id :=
      inMemory_putDocument doc
    obtain ⟨hbrought, hkept⟩ := hone
    have hstart : ∀ pair ∈ (start.docTerms.get doc.id).getD [],
        pair ∈ (engine.docTerms.get doc.id).getD [] ∨ InMemory engine pair := by
      intro pair hpair
      rcases hterms doc.id with hsame | hin
      · rw [hsame]
        exact .inl hpair
      · exact .inr (hin pair hpair)
    have hput : Working storage (putDocument p storage engine doc) (putLatest p docs doc) := by
      refine working_putDocument h hid fun pair hpair => ⟨(hpairs pair hpair).1, ?_⟩
      rcases (hpairs pair hpair).2 with hloaded | hin | hnone
      · rcases mem_append.mp hloaded with hold | hterm
        · exact .inr (.inl (hmemory pair (.inl hold)))
        · rcases hstart pair hterm with hcurrent | hin
          · exact .inl hcurrent
          · exact .inr (.inl hin)
      · exact .inr (.inl (hmemory pair (.inr hin)))
      · exact .inr (.inr (isNone_iff_eq_none.mp hnone))
    refine ih hput hrest (fun pair hpair => hbrought pair ?_) fun id => ?_
    · rcases hpair with hin | hold
      · rcases mem_append.mp hin with hold | hnew
        · rcases mem_append.mp hold with hold | hterm
          · exact .inl (hmemory pair (.inl hold))
          · rcases hstart pair hterm with hcurrent | hin
            · exact .inr (.inl hcurrent)
            · exact .inl hin
        · exact .inr (.inr hnew)
      · exact .inl (hmemory pair (.inr hold))
    · by_cases hsame : id = doc.id
      · refine .inr fun pair hpair => hbrought pair ?_
        rw [hsame] at hpair
        rcases hstart pair hpair with hcurrent | hin
        · exact .inr (.inl hcurrent)
        · exact .inl hin
      · rcases hterms id with hold | hin
        · exact .inl ((hkept id hsame).trans hold)
        · exact .inr fun pair hpair => hbrought pair (.inl (hin pair hpair))

end

end SuperFunctions.SearchFn.PersistentIndex
