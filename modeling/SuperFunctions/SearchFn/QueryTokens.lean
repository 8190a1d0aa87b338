import SuperFunctions.SearchFn.MemoryIndex

/-!
# The tokens of a query

The terms that a query stands for depend on the set of terms of the vocabulary, not on their order
and not on what the cache of expansions holds.
-/
namespace SuperFunctions.SearchFn.QueryTokens

open Lib.OrderedMap PostingKey MemoryIndex List

variable {N M D : Type} (s : Setup N M D)

/-- The expansions in the cache are those of the vocabulary. -/
def CacheValid (v : Vocabulary) : Prop :=
  ∀ term distance expansion, v.fuzzyCache.get (term, distance) = some expansion →
    expansion = fuzzyExpand s term distance v.terms

/-- Nothing but the cache has changed. -/
structure Keeps (v v' : Vocabulary) : Prop where
  terms : v'.terms = v.terms
  refs : v'.refs = v.refs
  cache : CacheValid s v'

/-- `termsOf` without the cache. -/
def candidates (params : SearchParams) (terms : List String) (value : String) :
    List (String × Rat) :=
  if params.prefixes then
    (terms.filter fun vocabTerm => value.toList.isPrefixOf vocabTerm.toList).map
      fun vocabTerm => (vocabTerm, if vocabTerm = value then 1 else 9 / 10)
  else
    match getFuzzyDistance params.fuzzy with
    | some distance =>
      (fuzzyExpand s value distance terms).map fun term => (term, if term = value then 1 else 4 / 5)
    | none => [(value, 1)]

variable {s}

variable {v : Vocabulary}

theorem getCachedFuzzyExpansion_eq (h : CacheValid s v) (term : String) (distance : Rat) :
    Keeps s v (getCachedFuzzyExpansion s v term distance).1 ∧
      (getCachedFuzzyExpansion s v term distance).2 = fuzzyExpand s term distance v.terms := by
  rw [getCachedFuzzyExpansion]
  split
  · next expansion hget => exact ⟨⟨rfl, rfl, h⟩, h term distance expansion hget⟩
  refine ⟨⟨rfl, rfl, ?_⟩, rfl⟩
  have hset : ∀ term' distance' expansion,
      (v.fuzzyCache.set (term, distance) (fuzzyExpand s term distance v.terms)).get
        (term', distance') = some expansion →
      expansion = fuzzyExpand s term' distance' v.terms := by
    intro term' distance' expansion hget
    rw [OMap.get_set] at hget
    split_ifs at hget with heq
    · cases hget
      cases heq
      rfl
    · exact h term' distance' expansion hget
  intro term' distance' expansion hget
  refine hset term' distance' expansion ?_
  dsimp only at hget
  split_ifs at hget with hfull
  · split at hget
    · rw [OMap.get_delete] at hget
      split_ifs at hget
      exact hget
    · exact hget
  · exact hget

theorem termsOf_eq (h : CacheValid s v) (params : SearchParams) (value : String) :
    Keeps s v (termsOf s params v value).1 ∧
      (termsOf s params v value).2 = candidates s params v.terms value := by
  rw [termsOf, candidates]
  split_ifs
  · exact ⟨⟨rfl, rfl, h⟩, rfl⟩
  cases getFuzzyDistance params.fuzzy with
  | none => exact ⟨⟨rfl, rfl, h⟩, rfl⟩
  | some distance =>
    obtain ⟨hkeeps, hexpansion⟩ := getCachedFuzzyExpansion_eq h value distance
    refine ⟨hkeeps, ?_⟩
    dsimp only
    rw [hexpansion]

theorem keeps_trans {v' v'' : Vocabulary} (h : Keeps s v v') (h' : Keeps s v' v'') :
    Keeps s v v'' := ⟨h'.terms.trans h.terms, h'.refs.trans h.refs, h'.cache⟩

/-! ## The map of tokens -/

/-- All terms of all fields, before those of one key are taken together. -/
def pairs (s : Setup N M D) (params : SearchParams) (terms : List String) (field : String) :
    List (String × String × Rat) :=
  (queryValues s field params.query).flatMap fun value =>
    (candidates s params terms value).map fun term => (field, term)

def insertPair (tokenMap : OMap String QueryToken) (pair : String × String × Rat) :
    OMap String QueryToken := insertToken pair.1 tokenMap pair.2

def pairKey (pair : String × String × Rat) : String := postingKey pair.1 pair.2.1

def pairToken (pair : String × String × Rat) : QueryToken := ⟨pair.1, pair.2.1, pair.2.2⟩

theorem foldl_addQueryToken (params : SearchParams) (field : String) (values : List String)
    (h : CacheValid s v) (tokenMap : OMap String QueryToken) :
    Keeps s v (values.foldl (addQueryToken s params field) (v, tokenMap)).1 ∧
      (values.foldl (addQueryToken s params field) (v, tokenMap)).2 =
        (values.flatMap fun value => (candidates s params v.terms value).map
          fun term => (field, term)).foldl insertPair tokenMap := by
  induction values generalizing v tokenMap with
  | nil => exact ⟨⟨rfl, rfl, h⟩, rfl⟩
  | cons value rest ih =>
    obtain ⟨hkeeps, hterms⟩ := termsOf_eq h params value
    obtain ⟨hkeeps', hrest⟩ := ih hkeeps.cache
      ((termsOf s params v value).2.foldl (insertToken field) tokenMap)
    refine ⟨keeps_trans hkeeps hkeeps', ?_⟩
    rw [foldl_cons, flatMap_cons, foldl_append, foldl_map]
    refine hrest.trans ?_
    rw [hkeeps.terms, hterms]
    rfl

theorem buildQueryTokens_eq (params : SearchParams) (fields : List String) (h : CacheValid s v) :
    Keeps s v (buildQueryTokens s params fields v).1 ∧
      (buildQueryTokens s params fields v).2 =
        (fields.flatMap (pairs s params v.terms)).foldl insertPair OMap.empty := by
  rw [buildQueryTokens]
  generalize (OMap.empty : OMap String QueryToken) = tokenMap
  induction fields generalizing v tokenMap with
  | nil => exact ⟨⟨rfl, rfl, h⟩, rfl⟩
  | cons field rest ih =>
    obtain ⟨hkeeps, htokens⟩ :=
      foldl_addQueryToken params field (queryValues s field params.query) h tokenMap
    obtain ⟨hkeeps', hrest⟩ := ih hkeeps.cache
      ((queryValues s field params.query).foldl (addQueryToken s params field) (v, tokenMap)).2
    refine ⟨keeps_trans hkeeps hkeeps', ?_⟩
    rw [foldl_cons, flatMap_cons, foldl_append]
    refine hrest.trans ?_
    rw [hkeeps.terms, htokens]
    rfl

theorem get_foldl_insertPair (ps : List (String × String × Rat))
    (tokenMap : OMap String QueryToken) (key : String) :
    (ps.foldl insertPair tokenMap).get key =
      (tokenMap.get key).or ((ps.find? fun pair => pairKey pair = key).map pairToken) := by
  refine OMap.get_foldl_new pairKey pairToken (fun m pair => ?_) ps tokenMap key
  rw [insertPair, insertToken, pairKey]
  cases m.get (postingKey pair.1 pair.2.1) <;> rfl

/-! ## Vocabularies with the same terms -/

theorem find?_eq_of_perm {α : Type} {p : α → Bool} {xs ys : List α} (h : xs.Perm ys)
    (hone : ∀ a ∈ xs, ∀ b ∈ xs, p a = true → p b = true → a = b) : xs.find? p = ys.find? p := by
  cases hx : xs.find? p with
  | none =>
    rw [find?_eq_none] at hx
    refine (find?_eq_none.mpr fun y hy => ?_).symm
    exact hx y (h.mem_iff.mpr hy)
  | some a =>
    cases hy : ys.find? p with
    | none =>
      rw [find?_eq_none] at hy
      exact absurd (find?_some hx) (hy a (h.mem_iff.mp (mem_of_find?_eq_some hx)))
    | some b =>
      rw [hone a (mem_of_find?_eq_some hx) b
        (h.mem_iff.mpr (mem_of_find?_eq_some hy)) (find?_some hx) (find?_some hy)]

theorem candidates_perm (params : SearchParams) {terms terms' : List String}
    (h : terms.Perm terms') (value : String) :
    (candidates s params terms value).Perm (candidates s params terms' value) := by
  rw [candidates, candidates]
  split_ifs
  · exact (h.filter _).map _
  · cases getFuzzyDistance params.fuzzy with
    | none => exact List.Perm.refl _
    | some distance => exact (h.filter _).map _

theorem candidates_fst_inj (params : SearchParams) (terms : List String) (value : String) :
    ∀ a ∈ candidates s params terms value, ∀ b ∈ candidates s params terms value,
      a.1 = b.1 → a = b := by
  intro a ha b hb heq
  rw [candidates] at ha hb
  split_ifs at ha hb
  · obtain ⟨x, -, rfl⟩ := mem_map.mp ha
    obtain ⟨y, -, rfl⟩ := mem_map.mp hb
    obtain rfl : x = y := heq
    rfl
  · cases hfuzzy : getFuzzyDistance params.fuzzy with
    | none =>
      rw [hfuzzy] at ha hb
      rw [mem_singleton.mp ha, mem_singleton.mp hb]
    | some distance =>
      rw [hfuzzy] at ha hb
      obtain ⟨x, -, rfl⟩ := mem_map.mp ha
      obtain ⟨y, -, rfl⟩ := mem_map.mp hb
      obtain rfl : x = y := heq
      rfl

theorem find?_pairs (params : SearchParams) {terms terms' : List String} (h : terms.Perm terms')
    (field key : String) :
    (pairs s params terms field).find? (fun pair => pairKey pair = key) =
      (pairs s params terms' field).find? fun pair => pairKey pair = key := by
  rw [pairs, pairs, find?_flatMap, find?_flatMap]
  congr 1
  funext value
  refine find?_eq_of_perm ((candidates_perm params h value).map _) ?_
  intro a ha b hb hkey hkey'
  obtain ⟨x, hx, rfl⟩ := mem_map.mp ha
  obtain ⟨y, hy, rfl⟩ := mem_map.mp hb
  have hkeys := (of_decide_eq_true hkey).trans (of_decide_eq_true hkey').symm
  rw [candidates_fst_inj params terms value x hx y hy (postingKey_cancel hkeys)]

theorem mem_pairs_fst {params : SearchParams} {terms : List String} {field : String}
    {pair : String × String × Rat} (h : pair ∈ pairs s params terms field) : pair.1 = field := by
  obtain ⟨value, -, hvalue⟩ := mem_flatMap.mp h
  obtain ⟨term, -, rfl⟩ := mem_map.mp hvalue
  rfl

theorem findSome?_of_only {α β : Type} {g : α → Option β} {xs : List α} {x : α} (hx : x ∈ xs)
    (hothers : ∀ y ∈ xs, y ≠ x → g y = none) : xs.findSome? g = g x := by
  induction xs with
  | nil => cases hx
  | cons y ys ih =>
    rw [findSome?_cons]
    cases hg : g y with
    | some b =>
      have heq : y = x := by
        by_contra hne
        rw [hothers y mem_cons_self hne] at hg
        cases hg
      rw [← heq, hg]
    | none =>
      rcases mem_cons.mp hx with rfl | hin
      · by_cases hmem : x ∈ ys
        · exact ih hmem fun z hz => hothers z (mem_cons_of_mem _ hz)
        · rw [hg]
          refine findSome?_eq_none_iff.mpr fun z hz => ?_
          have hne : z ≠ x := fun heq => hmem (heq ▸ hz)
          exact hothers z (mem_cons_of_mem _ hz) hne
      · exact ih hin fun z hz => hothers z (mem_cons_of_mem _ hz)

theorem find?_fields (params : SearchParams) (terms : List String) {fields : List String}
    (hplain : ∀ field ∈ fields, PlainField field) {field term : String} (hfield : field ∈ fields) :
    (fields.flatMap (pairs s params terms)).find?
        (fun pair => pairKey pair = postingKey field term) =
      (pairs s params terms field).find? fun pair => pairKey pair = postingKey field term := by
  rw [find?_flatMap]
  refine findSome?_of_only hfield fun other hother hne => ?_
  rw [find?_eq_none]
  intro pair hpair hkey
  have hfst := mem_pairs_fst hpair
  have hkeys : postingKey pair.1 pair.2.1 = postingKey field term := of_decide_eq_true hkey
  rw [hfst] at hkeys
  exact hne (postingKey_injective (hplain other hother) (hplain field hfield) hkeys).1

end SuperFunctions.SearchFn.QueryTokens
