import SuperFunctions.SearchFn.PersistentIndex

/-!
# Runs of the stored index

At the end of a call the dirty pairs are written back and the cache is brought up to date. The
memory can then be thrown away at any point: what is stored has every posting.
-/
namespace SuperFunctions.SearchFn.PersistentRuns

open Lib.OrderedMap Lib.Transition Ingest IndexedDb TermCache StoredPostings PersistentIndex Option
open List

section
variable {M : Type} {p : Pipeline M} {maxEntries : Nat} {storage : Storage M} {engine : Engine M}
  {docs : Documents M}

/-! ## The cache -/

variable {termMap : TermMap M}

theorem exact_of_cacheKey (hwellFormed : WellFormed docs) {pair other : Pair}
    (hexact : Exact docs pair termMap) (hne : termMap.entries ≠ [])
    (hkey : cacheKey other = cacheKey pair) : Exact docs other termMap := by
  have hsome : ∃ id, termMap.get id ≠ none := by
    by_contra hall
    push Not at hall
    exact hne ((OMap.entries_eq_nil_iff termMap).mpr hall)
  obtain ⟨id, hid⟩ := hsome
  obtain ⟨posting, hposting⟩ := ne_none_iff_exists'.mp hid
  have hexpected : expected docs pair id = some posting := (hexact id).symm.trans hposting
  have hplain := plain_of_expected hwellFormed hexpected
  rwa [cacheKey_injective hplain hkey]

theorem holds_updateTermCache {key : String}
    (h : Holds (updateTermCache engine).termCache key termMap) :
    (∃ pair ∈ engine.dirtyPostings, cacheKey pair = key ∧
        engine.postings.get pair = some termMap ∧ termMap.entries ≠ []) ∨
      (Holds engine.termCache key termMap ∧
        ∀ pair ∈ engine.dirtyPostings, cacheKey pair ≠ key) := by
  rw [updateTermCache] at h
  revert h
  generalize engine.termCache = cache
  induction engine.dirtyPostings generalizing cache with
  | nil => exact fun h => .inr ⟨h, by simp⟩
  | cons pair rest ih =>
    intro h
    rcases ih _ h with ⟨other, hother, hfound⟩ | ⟨hholds, hrest⟩
    · exact .inl ⟨other, mem_cons_of_mem _ hother, hfound⟩
    have hone : (cacheKey pair = key ∧ engine.postings.get pair = some termMap ∧
          termMap.entries ≠ []) ∨ (key ≠ cacheKey pair ∧ Holds cache key termMap) := by
      dsimp only at hholds
      split at hholds
      · next found hfound =>
        split_ifs at hholds with hempty
        · exact .inr (holds_delete hholds)
        · rcases holds_set hholds with ⟨hkey, hvalue⟩ | hold
          · rw [hkey, hvalue]
            exact .inl ⟨rfl, hfound, hempty⟩
          · exact .inr hold
      · exact .inr (holds_delete hholds)
    rcases hone with ⟨hkey, hfound, hne⟩ | ⟨hkey, hold⟩
    · exact .inl ⟨pair, mem_cons_self, hkey, hfound, hne⟩
    refine .inr ⟨hold, fun other hother => ?_⟩
    rcases mem_cons.mp hother with heq | hin
    · rw [heq]
      exact hkey.symm
    · exact hrest other hin

theorem cached_updateTermCache (h : Working storage engine docs) {key : String}
    (hholds : Holds (updateTermCache engine).termCache key termMap) {pair : Pair}
    (hkey : cacheKey pair = key) : Exact docs pair termMap := by
  rcases holds_updateTermCache hholds with ⟨other, -, hother, hget, hne⟩ | ⟨hold, hclean⟩
  · have hexact : Exact docs other termMap := by
      have hseen := h.seen other
      rwa [seen_of_inMemory hget] at hseen
    exact exact_of_cacheKey h.wellFormed hexact hne (hkey.trans hother.symm)
  · exact h.cached key termMap hold pair hkey fun hpair => hclean pair hpair hkey

/-! ## Writing back -/

variable {cache : LruCache (TermMap M)}

theorem represents_persistAll (h : Working storage engine docs)
    (hchunks : ∀ pair termMap, storage.chunks.get pair = some termMap → termMap.entries ≠ [])
    (hcache : ∀ key termMap, Holds cache key termMap → ∀ pair, cacheKey pair = key →
      Exact docs pair termMap) :
    Represents (persistAll storage { engine with termCache := cache }) docs := by
  have hget : ∀ pair,
      (engine.dirtyPostings.foldl persistPosting (storage.chunks, engine.postings)).1.get pair =
          (if pair ∈ engine.dirtyPostings then kept (engine.postings.get pair)
            else storage.chunks.get pair) ∧
        (engine.dirtyPostings.foldl persistPosting (storage.chunks, engine.postings)).2.get pair =
          if pair ∈ engine.dirtyPostings then kept (engine.postings.get pair)
          else engine.postings.get pair := foldl_persistPosting _
  generalize hfold : engine.dirtyPostings.foldl persistPosting
    (storage.chunks, engine.postings) = written at hget
  have heq : persistAll storage { engine with termCache := cache } =
      ⟨⟨written.1, snapshotDocTerms engine.docTerms⟩,
        some ⟨written.2, [], cache, engine.docTerms⟩⟩ := by
    rw [persistAll, hfold]
  have hkept : ∀ pair ∈ engine.dirtyPostings,
      Exact docs pair ((kept (engine.postings.get pair)).getD OMap.empty) := by
    intro pair hpair id
    obtain ⟨termMap, hmap⟩ := isSome_iff_exists.mp (h.dirty pair hpair)
    rw [get_kept, hmap, ← h.seen pair id, seen_of_inMemory hmap]
    rfl
  have hstored : ∀ pair, Exact docs pair ((written.1.get pair).getD OMap.empty) := by
    intro pair
    rw [(hget pair).1]
    split_ifs with hpair
    · exact hkept pair hpair
    · exact h.settled pair hpair
  have hnames : ∀ id, (snapshotDocTerms engine.docTerms).get id = (docs.get id).map termsOf := by
    intro id
    show (engine.docTerms.delete "__proto__").get id = _
    rw [OMap.get_delete]
    split_ifs with hid
    · cases hdoc : docs.get id with
      | none => rfl
      | some entries => exact absurd hid (h.wellFormed.ids id entries hdoc)
    · exact h.docTerms id
  rw [heq]
  refine ⟨hstored, fun pair termMap hmap => ?_, hnames, fun engine' hengine => ?_, h.wellFormed⟩
  · rw [(hget pair).1] at hmap
    split_ifs at hmap
    · obtain ⟨found, -, hfound⟩ := bind_eq_some_iff.mp hmap
      split_ifs at hfound with hempty
      rwa [← some.inj hfound]
    · exact hchunks pair termMap hmap
  · cases hengine
    refine ⟨⟨fun pair => ?_, fun pair _ => hstored pair, fun pair hpair => ?_,
      fun key termMap hholds pair hkey _ => hcache key termMap hholds pair hkey, h.docTerms,
      h.wellFormed⟩, rfl⟩
    · show Exact docs pair ((written.2.get pair).getD ((written.1.get pair).getD OMap.empty))
      rw [(hget pair).1, (hget pair).2]
      split_ifs with hpair
      · have hmap := hkept pair hpair
        cases hsome : kept (engine.postings.get pair) with
        | none | some termMap =>
          rwa [hsome] at hmap
      · exact h.seen pair
    · cases hpair

/-! ## The calls -/

variable {adapter : Adapter M}

theorem working_getD (maxEntries : Nat) (h : Represents adapter docs) :
    Working adapter.storage (adapter.engine.getD (openEngine maxEntries adapter.storage)) docs ∧
      (adapter.engine.getD (openEngine maxEntries adapter.storage)).dirtyPostings = [] := by
  cases hengine : adapter.engine with
  | some engine => exact h.opened engine hengine
  | none =>
    refine ⟨⟨h.stored, fun pair _ => h.stored pair, fun pair hpair => ?_,
      fun key termMap hholds => ?_, h.docTerms, h.wellFormed⟩, rfl⟩
    · cases hpair
    · cases hholds

theorem working_removeDocs (ids : List String) (h : Working storage engine docs) :
    Working storage (ids.foldl (removeDocById storage) engine)
      (ids.foldl (fun docs id => docs.delete id) docs) := by
  induction ids generalizing engine docs with
  | nil => exact h
  | cons id rest ih => exact ih (working_removeDocById h id)

theorem lookUpToken_cache (storage : Storage M) (engine : Engine M) (pair : Pair) :
    ∃ cache, lookUpToken storage engine pair = { engine with termCache := cache } ∧
      ∀ key termMap, Holds cache key termMap → Holds engine.termCache key termMap ∨
        (key = cacheKey pair ∧ storage.chunks.get pair = some termMap) := by
  rw [lookUpToken]
  split
  · next found cache hget =>
    refine ⟨cache, rfl, fun key termMap hholds => .inl ?_⟩
    have hafter : Holds (engine.termCache.get (cacheKey pair)).2 key termMap := by
      rwa [hget]
    exact holds_get hafter
  · split
    · next stored hstored =>
      refine ⟨_, rfl, fun key termMap hholds => ?_⟩
      rcases holds_set hholds with ⟨hkey, hvalue⟩ | ⟨-, hold⟩
      · rw [hvalue]
        exact .inr ⟨hkey, hstored⟩
      · exact .inl hold
    · exact ⟨engine.termCache, rfl, fun key termMap hholds => .inl hholds⟩

theorem working_lookUpTokens (tokens : List Pair) (h : Working storage engine docs)
    (hdirty : engine.dirtyPostings = [])
    (hchunks : ∀ pair termMap, storage.chunks.get pair = some termMap → termMap.entries ≠ []) :
    Working storage (tokens.foldl (lookUpToken storage) engine) docs ∧
      (tokens.foldl (lookUpToken storage) engine).dirtyPostings = [] := by
  induction tokens generalizing engine with
  | nil => exact ⟨h, hdirty⟩
  | cons token rest ih =>
    obtain ⟨cache, heq, hcache⟩ := lookUpToken_cache storage engine token
    rw [foldl_cons, heq]
    refine ih { h with cached := fun key termMap hholds pair hkey hpair => ?_ } hdirty
    rcases hcache key termMap hholds with hold | ⟨htoken, hstored⟩
    · exact h.cached key termMap hold pair hkey hpair
    have hexact : Exact docs token termMap := by
      have hsettled := h.settled token (by rw [hdirty]; exact not_mem_nil)
      rwa [chunk, hstored] at hsettled
    exact exact_of_cacheKey h.wellFormed hexact (hchunks token termMap hstored) (hkey.trans htoken)

theorem represents_empty (hcache : cache.entries = []) :
    Represents ⟨⟨OMap.empty, OMap.empty⟩, some ⟨OMap.empty, [], cache, OMap.empty⟩⟩
      (OMap.empty : Documents M) := by
  have hwellFormed : WellFormed (OMap.empty : Documents M) := by
    refine ⟨?_, ?_, ?_⟩ <;>
    · exact nofun
  refine ⟨fun _ _ => rfl, ?_, fun _ => rfl, fun engine hengine => ?_, hwellFormed⟩
  · exact nofun
  cases hengine
  refine ⟨⟨fun _ _ => rfl, fun _ _ _ => rfl, ?_, ?_, fun _ => rfl, hwellFormed⟩, rfl⟩
  · exact nofun
  · intro key termMap hholds
    rw [Holds, hcache] at hholds
    cases hholds

theorem represents_fresh : Represents fresh (OMap.empty : Documents M) := by
  have hcache : (⟨[], 0⟩ : LruCache (TermMap M)).entries = [] := rfl
  have h := represents_empty hcache
  refine { h with opened := fun engine hengine => ?_ }
  cases hengine

theorem step_represents {adapter' : Adapter M} {action : Action} (h : Represents adapter docs)
    (hcareful : Careful p maxEntries adapter action)
    (hstep : step p maxEntries adapter action = some adapter') :
    ∃ docs', latest p docs action = some docs' ∧ Represents adapter' docs' := by
  obtain ⟨hworking, hdirty⟩ := working_getD maxEntries h
  cases action with
  | index documents =>
    cases hstep
    have hput := working_putDocuments documents hworking hcareful
      (fun pair hpair => hpair.resolve_left not_mem_nil) fun id => .inl rfl
    exact ⟨_, rfl, represents_persistAll hput h.chunks fun key termMap hholds pair hkey =>
      cached_updateTermCache hput hholds hkey⟩
  | remove ids =>
    cases hstep
    refine ⟨_, rfl, represents_persistAll (working_removeDocs ids hworking) h.chunks ?_⟩
    exact nofun
  | search tokens =>
    cases hstep
    refine ⟨docs, rfl, h.stored, h.chunks, h.docTerms, fun engine hengine => ?_, h.wellFormed⟩
    cases hengine
    exact working_lookUpTokens tokens hworking hdirty h.chunks
  | clear =>
    cases hstep
    exact ⟨_, rfl, represents_empty rfl⟩
  | reopen =>
    cases hstep
    refine ⟨docs, rfl, h.stored, h.chunks, h.docTerms, fun engine hengine => ?_, h.wellFormed⟩
    cases hengine

theorem complete_of_represents (h : Represents adapter docs) :
    Complete adapter docs := { h with
  inMemory engine hengine pair termMap hmap := by
    have hseen := (h.opened engine hengine).1.seen pair
    rwa [seen_of_inMemory hmap] at hseen
  cached engine hengine pair termMap hget := by
    obtain ⟨hworking, hdirty⟩ := h.opened engine hengine
    refine hworking.cached _ termMap (holds_of_get hget) pair rfl ?_
    rw [hdirty]
    exact not_mem_nil }

end

/-! ## An adapter that is opened again -/

/-- The text of a field is one token. -/
def samplePipeline : Pipeline Bool := ⟨fun _ text => [⟨text, none⟩], id⟩

def titled (id text : String) : Document := ⟨id, OMap.empty.set "title" text⟩

/-- A new document shares the term of a stored one, whose new version brings it into memory. -/
def sampleActions : List Action :=
  [.index [titled "1" "tree", titled "2" "oak"], .reopen, .search [("title", "tree")],
    .index [titled "1" "tree", titled "3" "tree"], .remove ["2"], .reopen,
    .index [titled "2" "oak", titled "3" ""], .clear, .index [titled "4" "oak"]]

def sampleAdapter : Adapter Bool :=
  (run (step samplePipeline 100) fresh sampleActions).get (by decide)

/-- A new document shares the term of a stored one after the adapter was opened again. -/
def sharedTermActions : List Action :=
  [.index [titled "1" "tree"], .reopen, .index [titled "2" "tree"]]

def sharedTermAdapter : Adapter Bool :=
  (run (step samplePipeline 100) fresh sharedTermActions).get (by decide)

def sharedTermDocuments : Documents Bool :=
  (run (latest samplePipeline) OMap.empty sharedTermActions).get (by decide)

end SuperFunctions.SearchFn.PersistentRuns
