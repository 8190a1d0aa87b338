import Mathlib.Algebra.Order.Ring.Rat
import Mathlib.Data.String.Basic
import SuperFunctions.Lib.Processes
import SuperFunctions.SearchFn.QueryTokens
import SuperFunctions.SearchFn.SnapshotSteps

/-!
# Snapshots tell the index

Two instances that hold the same documents answer every search alike, whatever the order in which
their maps were filled. So an imported snapshot goes on like the instance that exported it, through
every run whose removals leave no term behind.
-/
namespace SuperFunctions.SearchFn.SnapshotAgreement

open Lib.OrderedMap
open Lib.Transition (Guarded guarded_run_invariant run)
open Ingest
open MemoryIndex (DocId QueryToken fuzzyExpand)
open QueryTokens (find?_eq_of_perm)
open InMemorySearch SnapshotInvariant SnapshotSteps OMap

variable {N M P : Type} {o : Options N M}

/-! ## The tokens of a query -/

def tokenKey (token : QueryToken) : String := postingBucketKey token.field token.term

/-- The tokens that a value of the query offers. -/
def offers (o : Options N M) (vocabulary : List String) (distance : Option Rat) (field value : String) :
    List QueryToken :=
  ⟨field, value, 1⟩ :: match distance with
    | none => []
    | some distance => (fuzzyExpand o.setup value distance vocabulary).map fun fuzzyTerm =>
      ⟨field, fuzzyTerm, if fuzzyTerm = value then 1 else 4 / 5⟩

variable {vocabulary : List String} {cache : FuzzyCache}

theorem expansion_eq (h : Current o vocabulary cache) (term : String) (distance : Rat) :
    Current o vocabulary (getCachedFuzzyExpansion o vocabulary cache term distance).1 ∧
      (getCachedFuzzyExpansion o vocabulary cache term distance).2 =
        fuzzyExpand o.setup term distance vocabulary := by
  rw [getCachedFuzzyExpansion]
  split
  · next cached hget => exact ⟨h, h.cache term distance cached hget⟩
  refine ⟨⟨h.distinct, fun term' distance' expansion hget => ?_⟩, rfl⟩
  rw [get_set] at hget
  split_ifs at hget with heq
  · cases hget
    cases heq
    rfl
  · exact h.cache term' distance' expansion hget

theorem addQueryToken_eq (h : Current o vocabulary cache) (distance : Option Rat)
    (field value : String) (tokens : OMap String QueryToken) :
    Current o vocabulary (addQueryToken o vocabulary distance field (cache, tokens) value).1 ∧
      (addQueryToken o vocabulary distance field (cache, tokens) value).2 =
        (offers o vocabulary distance field value).foldl offerToken tokens := by
  cases distance with
  | none => exact ⟨h, rfl⟩
  | some distance =>
    obtain ⟨hcurrent, hexpansion⟩ := expansion_eq h value distance
    refine ⟨hcurrent, ?_⟩
    rw [addQueryToken, offers, List.foldl_cons, List.foldl_map, ← hexpansion]

/-- All that a query offers. -/
def allOffers (o : Options N M) (vocabulary : List String) (query : String)
    (options : SearchOptions) : List QueryToken :=
  (if options.fields = [] then o.fields else options.fields).flatMap fun field =>
    (queryValues o field query).flatMap (offers o vocabulary (getFuzzyDistance options.fuzzy) field)

theorem foldl_addQueryToken (distance : Option Rat) (field : String) (values : List String)
    (h : Current o vocabulary cache) (tokens : OMap String QueryToken) :
    Current o vocabulary (values.foldl (addQueryToken o vocabulary distance field)
        (cache, tokens)).1 ∧
      (values.foldl (addQueryToken o vocabulary distance field) (cache, tokens)).2 =
        (values.flatMap (offers o vocabulary distance field)).foldl offerToken tokens := by
  induction values generalizing cache tokens with
  | nil => exact ⟨h, rfl⟩
  | cons value rest ih =>
    obtain ⟨hcurrent, htokens⟩ := addQueryToken_eq h distance field value tokens
    obtain ⟨hcurrent', hrest⟩ := ih hcurrent
      (addQueryToken o vocabulary distance field (cache, tokens) value).2
    refine ⟨hcurrent', ?_⟩
    rwa [List.foldl_cons, List.flatMap_cons, List.foldl_append, ← htokens]

theorem get_foldl_offerToken (ts : List QueryToken) (tokens : OMap String QueryToken)
    (key : String) :
    (ts.foldl offerToken tokens).get key =
      (tokens.get key).or (ts.find? fun token => tokenKey token = key) := by
  rw [get_foldl_new tokenKey id (fun m token => ?_) ts tokens key, Option.map_id_apply]
  rw [offerToken, tokenKey]
  cases m.get (postingBucketKey token.field token.term) <;> rfl

theorem bucketKey_cancel {field term term' : String}
    (h : postingBucketKey field term = postingBucketKey field term') : term = term' := by
  have hlists := congrArg String.toList h
  simp only [postingBucketKey, String.toList_append] at hlists
  exact String.toList_inj.mp (List.append_cancel_left hlists)

theorem offers_inj {distance : Option Rat} {field value : String} {a b : QueryToken}
    (ha : a ∈ offers o vocabulary distance field value)
    (hb : b ∈ offers o vocabulary distance field value) (hkey : tokenKey a = tokenKey b) :
    a = b := by
  have hform : ∀ token ∈ offers o vocabulary distance field value,
      token = ⟨field, token.term, if token.term = value then 1 else 4 / 5⟩ := by
    intro token htoken
    rcases List.mem_cons.mp htoken with rfl | hin
    · simp
    cases distance with
    | none => cases hin
    | some distance =>
      obtain ⟨term, -, rfl⟩ := List.mem_map.mp hin
      rfl
  have hfields : a.field = b.field := by
    rw [hform a ha, hform b hb]
  rw [tokenKey, tokenKey, hfields] at hkey
  rw [hform a ha, hform b hb, bucketKey_cancel hkey]

theorem find?_offers {vocabulary' : List String} (h : vocabulary.Perm vocabulary') (query : String)
    (options : SearchOptions) (key : String) :
    (allOffers o vocabulary query options).find? (fun token => tokenKey token = key) =
      (allOffers o vocabulary' query options).find? fun token => tokenKey token = key := by
  rw [allOffers, allOffers, List.find?_flatMap, List.find?_flatMap]
  congr 1
  funext field
  rw [List.find?_flatMap, List.find?_flatMap]
  congr 1
  funext value
  refine find?_eq_of_perm ?_ fun a ha b hb hkey hkey' =>
    offers_inj ha hb ((of_decide_eq_true hkey).trans (of_decide_eq_true hkey').symm)
  refine List.Perm.cons _ ?_
  cases getFuzzyDistance options.fuzzy with
  | none => exact List.Perm.refl _
  | some distance => exact (h.filter _).map _

/-! ## The ranking -/

instance : Std.Total (scoredLe o) where
  total a b := by
    rcases lt_trichotomy a.2 b.2 with hlt | heq | hlt
    · exact .inr (.inl hlt)
    · rcases le_total (idText o a.1) (idText o b.1) with hle | hle
      · exact .inl (.inr ⟨heq, hle⟩)
      · exact .inr (.inr ⟨heq.symm, hle⟩)
    · exact .inl (.inl hlt)

instance : IsTrans (DocId N × Rat) (scoredLe o) where
  trans a b c hab hbc := by
    rcases hab with hab | ⟨hab, htext⟩
    · rcases hbc with hbc | ⟨hbc, -⟩
      · exact .inl (hbc.trans hab)
      · exact .inl (hbc ▸ hab)
    · rcases hbc with hbc | ⟨hbc, htext'⟩
      · exact .inl (hab ▸ hbc)
      · exact .inr ⟨hab.trans hbc, htext.trans htext'⟩

theorem scoredLe_antisymm {a b : DocId N × Rat} (hab : scoredLe o a b) (hba : scoredLe o b a) :
    a.2 = b.2 ∧ idText o a.1 = idText o b.1 := by
  rcases hab with hab | ⟨hab, htext⟩
  · rcases hba with hba | ⟨hba, -⟩
    · exact absurd (hab.trans hba) (lt_irrefl _)
    · exact absurd (hba ▸ hab) (lt_irrefl _)
  · rcases hba with hba | ⟨-, htext'⟩
    · exact absurd (hab ▸ hba) (lt_irrefl _)
    · exact ⟨hab, le_antisymm htext htext'⟩

/-! ## The same documents, the same answers -/

variable [DecidableEq N] {engine engine' : InMemorySearchFn N M P} {docs : Stored N P}

theorem buildQueryTokens_eq (h : Current o engine.vocabulary engine.fuzzyCache) (query : String)
    (options : SearchOptions) :
    Current o engine.vocabulary (buildQueryTokens o engine query options).1 ∧
      (buildQueryTokens o engine query options).2 =
        (allOffers o engine.vocabulary query options).foldl offerToken OMap.empty := by
  rw [buildQueryTokens, allOffers]
  generalize (OMap.empty : OMap String QueryToken) = tokens
  revert h
  generalize engine.fuzzyCache = cache
  generalize (if options.fields = [] then o.fields else options.fields) = fields
  intro h
  induction fields generalizing cache tokens with
  | nil => exact ⟨h, rfl⟩
  | cons field rest ih =>
    obtain ⟨hcurrent, htokens⟩ := foldl_addQueryToken (getFuzzyDistance options.fuzzy) field
      (queryValues o field query) h tokens
    obtain ⟨hcurrent', hrest⟩ := ih _ _ hcurrent
    refine ⟨hcurrent', ?_⟩
    rwa [List.foldl_cons, List.flatMap_cons, List.foldl_append, ← htokens]

section

variable (h : Represents o engine docs)
include h

theorem current_of_represents :
    Current o engine.vocabulary engine.fuzzyCache := ⟨h.distinct, h.cache⟩

section

variable (h' : Represents o engine' docs)
include h'

theorem vocabulary_perm : engine.vocabulary.Perm engine'.vocabulary := by
  rw [List.perm_ext_iff_of_nodup h.distinct h'.distinct]
  intro term
  exact (h.vocabulary term).trans (h'.vocabulary term).symm

theorem tokens_perm (query : String) (options : SearchOptions) :
    (buildQueryTokens o engine query options).2.values.Perm
      (buildQueryTokens o engine' query options).2.values := by
  have hget : ∀ key, (buildQueryTokens o engine query options).2.get key =
      (buildQueryTokens o engine' query options).2.get key := by
    intro key
    rw [(buildQueryTokens_eq (current_of_represents h) query options).2,
      (buildQueryTokens_eq (current_of_represents h') query options).2, get_foldl_offerToken,
      get_foldl_offerToken, find?_offers (vocabulary_perm h h')]
  exact (perm_of_get_eq hget).map Prod.snd

theorem lookup_agree (key : String) (id : DocId N) :
    lookup engine.postings key id = lookup engine'.postings key id := by
  apply Option.ext
  intro p
  exact (h.postings key id p).trans (h'.postings key id p).symm

theorem get_postings_none {key : String} (hnone : engine.postings.get key = none) :
    engine'.postings.get key = none := by
  rw [Option.eq_none_iff_forall_ne_some]
  intro bucket hget
  obtain ⟨id, doc, hdoc, entry, hentry, hkey, -⟩ := h'.named key bucket hget
  have hlookup := (h.postings key id _).mpr ⟨doc, hdoc, entry, hentry, hkey, rfl⟩
  rw [lookup, hnone] at hlookup
  cases hlookup

theorem average_agree :
    engine.statsManager.getAverageLength = engine'.statsManager.getAverageLength := by
  rw [StatsManager.getAverageLength, StatsManager.getAverageLength, h.documentCount,
    h'.documentCount, h.totalLength, h'.totalLength]

theorem contributions_perm (token : QueryToken) :
    (contributions o engine token).Perm (contributions o engine' token) := by
  rw [contributions, contributions]
  cases hget : engine.postings.get (postingBucketKey token.field token.term) with
  | none => rw [get_postings_none h h' hget]
  | some bucket =>
    cases hget' : engine'.postings.get (postingBucketKey token.field token.term) with
    | none =>
      rw [get_postings_none h' h hget'] at hget
      cases hget
    | some bucket' =>
      have hsame : ∀ id, bucket.documents.get id = bucket'.documents.get id := by
        intro id
        rw [← lookup_of_get hget, ← lookup_of_get hget']
        exact lookup_agree h h' _ id
      have hentries := perm_of_get_eq hsame
      have hlengths : ∀ id, engine.statsManager.lengths.get id =
          engine'.statsManager.lengths.get id :=
        fun id => (h.lengths id).trans (h'.lengths id).symm
      dsimp only
      rw [hentries.length_eq, average_agree h h']
      simp only [hlengths]
      exact (hentries.map Prod.snd).map _

end

end

/-- The ids of the documents are told apart as texts. -/
def IdsApart (o : Options N M) (docs : Stored N P) : Prop :=
  ∀ id ∈ docs.keys, ∀ id' ∈ docs.keys, idText o id = idText o id' → id = id'

instance (docs : Stored N P) : Decidable (IdsApart o docs) :=
  inferInstanceAs (Decidable (∀ id ∈ docs.keys, _))

section

variable (h : Represents o engine docs)
include h

theorem stored_of_scored {tokens : List QueryToken} {e : DocId N × Rat}
    (he : e ∈ scorePostings o engine tokens) : e.1 ∈ docs.keys := by
  have hmem := (mem_entries_iff_get _ _ _).mp ((List.mem_insertionSort _).mp he)
  rw [get_addAll] at hmem
  split_ifs at hmem with hkey
  rcases hkey with hkey | hkey
  · obtain ⟨c, hc, hid⟩ := List.mem_map.mp hkey
    obtain ⟨token, -, hcontribution⟩ := List.mem_flatMap.mp hc
    rw [contributions] at hcontribution
    split at hcontribution
    · cases hcontribution
    next bucket hget =>
    obtain ⟨p, hp, rfl⟩ := List.mem_map.mp hcontribution
    obtain ⟨id, hid'⟩ := (mem_values_iff_get _ _).mp hp
    have hsame := docId_of_get h hget hid'
    rw [← lookup_of_get hget] at hid'
    obtain ⟨doc, hdoc, -⟩ := (h.postings _ id p).mp hid'
    have hid : p.docId = e.1 := hid
    rw [mem_keys_iff_get, ← hid, hsame, hdoc]
    rfl
  · cases hkey

theorem scorePostings_agree (h' : Represents o engine' docs) (hids : IdsApart o docs)
    {tokens tokens' : List QueryToken} (hperm : tokens.Perm tokens') :
    scorePostings o engine tokens = scorePostings o engine' tokens' := by
  have hscores := perm_of_get_eq (get_addAll_perm
    (hperm.flatMap fun token _ => contributions_perm h h' token))
  apply List.Perm.eq_of_pairwise (fun a b ha hb hab hba => ?_)
    (List.pairwise_insertionSort (scoredLe o) _) (List.pairwise_insertionSort (scoredLe o) _)
    (((List.perm_insertionSort _ _).trans hscores).trans (List.perm_insertionSort _ _).symm)
  obtain ⟨hscore, htext⟩ := scoredLe_antisymm hab hba
  exact Prod.ext (hids a.1 (stored_of_scored h ha) b.1 (stored_of_scored h' hb) htext) hscore

theorem search_agree (h' : Represents o engine' docs) (hids : IdsApart o docs) (query : String)
    (options : SearchOptions) :
    (searchDetailed o engine query options).2 = (searchDetailed o engine' query options).2 := by
  have hdocuments : ∀ id, engine.documents.get id = engine'.documents.get id :=
    fun id => (h.documents id).trans (h'.documents id).symm
  rw [searchDetailed, searchDetailed]
  by_cases hempty : o.trim query = ""
  · rw [if_pos hempty, if_pos hempty]
  · rw [if_neg hempty, if_neg hempty]
    dsimp only
    rw [scorePostings_agree h h' hids (tokens_perm h h' (o.trim query) options)]
    simp only [hdocuments]

theorem represents_search (query : String) (options : SearchOptions) :
    Represents o (searchDetailed o engine query options).1 docs := by
  rw [searchDetailed]
  by_cases hempty : o.trim query = ""
  · rwa [if_pos hempty]
  · rw [if_neg hempty]
    exact { h with
      cache := (buildQueryTokens_eq (current_of_represents h) (o.trim query) options).1.cache }

end

/-! ## Runs -/

inductive Call (N P : Type) where
  | add (input : InMemoryAddDocumentInput N P)
  | remove (id : DocId N)
  | clear
  | search (query : String) (options : SearchOptions)

/-- An instance, and the documents that its calls have stored in it. -/
abbrev Instance (N M P : Type) [DecidableEq N] := InMemorySearchFn N M P × Stored N P

section
variable (o : Options N M)

def step (st : Instance N M P) : Call N P → Option (Instance N M P)
  | .add input => some (add o st.1 input, storeInput st.2 input)
  | .remove id => some (remove o st.1 id, st.2.delete id)
  | .clear => some (clear st.1, OMap.empty)
  | .search query options => some ((searchDetailed o st.1 query options).1, st.2)

/-- The postings are told apart by their keys, and a document that goes takes its terms along. -/
def Tidy (st : Instance N M P) : Call N P → Prop
  | .add input => KeysApart o (storeInput st.2 input) ∧
    ((st.2.get input.id).isSome = true → RemovalPrunes o st.1 input.id)
  | .remove id => RemovalPrunes o st.1 id
  | _ => True

instance (ps : Buckets N M) (id : DocId N) (term : String) : Decidable (OnlyOwner o ps id term) :=
  inferInstanceAs (Decidable (∀ e ∈ ps.entries, _ → ∀ p ∈ e.2.documents.entries, _ → _))

instance (engine : InMemorySearchFn N M P) (id : DocId N) : Decidable (RemovalPrunes o engine id) :=
  inferInstanceAs (Decidable (∀ term ∈ engine.vocabulary, _ → _))

instance (st : Instance N M P) (call : Call N P) : Decidable (Tidy o st call) := by
  unfold Tidy
  split <;> infer_instance

/-- The instance as it is after another one has imported its snapshot. -/
def copyInto (other : InMemorySearchFn N M P) (st : Instance N M P) : Instance N M P :=
  (importSnapshot other (exportSnapshot o st.1), st.2)

/-- The instances that calls and imports lead to, when each call meets the guard. -/
inductive Reached (guard : Instance N M P → Call N P → Prop) : Instance N M P → Prop
  | new : Reached guard (newInstance, OMap.empty)
  | call {st st' : Instance N M P} (call : Call N P) (h : Reached guard st)
    (hguard : guard st call) (hstep : step o st call = some st') : Reached guard st'
  | imported {st : Instance N M P} (other : InMemorySearchFn N M P) (h : Reached guard st) :
    Reached guard (copyInto o other st)

/-- The index is that of the stored documents. -/
structure Exact (engine : InMemorySearchFn N M P) (docs : Stored N P) : Prop where
  vocabulary : ∀ term, term ∈ engine.vocabulary ↔ Owned o docs term
  buckets : ∀ key bucket, engine.postings.get key = some bucket →
    postingBucketKey bucket.field bucket.term = key ∧ bucket.documents.entries ≠ [] ∧
      ∀ id p, bucket.documents.get id = some p ↔ ∃ doc, docs.get id = some doc ∧
        ∃ entry ∈ entries o doc, entry.field = bucket.field ∧ entry.term = bucket.term ∧
          p = posting id entry
  postings : ∀ id doc, docs.get id = some doc → ∀ entry ∈ entries o doc,
    lookup engine.postings (postingBucketKey entry.field entry.term) id = some (posting id entry)
  lengths : ∀ id, engine.statsManager.lengths.get id = (docs.get id).map (length o)
  totalLength : engine.statsManager.totalLength = ((docs.values.map (length o)).sum : Nat)
  documentCount : engine.statsManager.documentCount = docs.values.length
  documents : ∀ id, getDocument engine id = (docs.get id).map StoredDocument.payload

end

theorem exact_of_represents (h : Represents o engine docs) : Exact o engine docs := { h with
  buckets key bucket hget := by
    refine ⟨bucket_key h hget, fun hempty => ?_, fun id p => ?_⟩
    · obtain ⟨id, doc, hdoc, entry, hentry, hkey, -⟩ := h.named key bucket hget
      have hp := (h.postings key id _).mpr ⟨doc, hdoc, entry, hentry, hkey, rfl⟩
      rw [lookup_of_get hget, (entries_eq_nil_iff _).mp hempty] at hp
      cases hp
    · rw [← lookup_of_get hget, h.postings]
      constructor
      · rintro ⟨doc, hdoc, entry, hentry, hkey, hp⟩
        obtain ⟨hfield, hterm⟩ := named_entry h hget hdoc hentry hkey
        exact ⟨doc, hdoc, entry, hentry, hfield, hterm, hp⟩
      · rintro ⟨doc, hdoc, entry, hentry, hfield, hterm, hp⟩
        refine ⟨doc, hdoc, entry, hentry, ?_, hp⟩
        rw [bucketKey, hfield, hterm]
        exact bucket_key h hget
  postings id doc hdoc entry hentry :=
    (h.postings _ id _).mpr ⟨doc, hdoc, entry, hentry, rfl, rfl⟩
  documentCount := by
    rw [h.documentCount]
    simp }

theorem represents_step {st st' : Instance N M P} {call : Call N P}
    (h : Represents o st.1 st.2) (htidy : Tidy o st call) (hstep : step o st call = some st') :
    Represents o st'.1 st'.2 := by
  cases call with
  | add input =>
    cases hstep
    exact represents_add h htidy.1 htidy.2
  | remove id =>
    cases hstep
    exact represents_remove h htidy
  | clear =>
    cases hstep
    exact represents_new
  | search query options =>
    cases hstep
    exact represents_search h query options

theorem represents_reached {st : Instance N M P} (h : Reached o (Tidy o) st) :
    Represents o st.1 st.2 := by
  induction h with
  | new => exact represents_new
  | call call _ htidy hstep ih => exact represents_step ih htidy hstep
  | imported other _ ih => exact represents_import ih other

variable {calls : List (Call N P)}

theorem represents_run (st : Instance N M P) {st' : Instance N M P} (h : Represents o st.1 st.2)
    (htidy : Guarded (step o) (Tidy o) st calls) (hrun : run (step o) st calls = some st') :
    Represents o st'.1 st'.2 :=
  @guarded_run_invariant _ _ (step o) calls (Tidy o)
    (fun s => Represents o s.1 s.2) (fun _ _ _ => represents_step) st st' h htidy hrun

theorem reached_run {guard : Instance N M P → Call N P → Prop} {st st' : Instance N M P}
    (h : Reached o guard st) (hguard : Guarded (step o) guard st calls)
    (hrun : run (step o) st calls = some st') : Reached o guard st' :=
  @guarded_run_invariant _ _ (step o) calls guard (Reached o guard)
    (fun _ call _ hs => Reached.call call hs) st st' h hguard hrun

theorem step_docs {st st' copy copy' : Instance N M P} {call : Call N P} (hsame : copy.2 = st.2)
    (hstep : step o st call = some st') (hstep' : step o copy call = some copy') :
    copy'.2 = st'.2 := by
  cases call <;> cases hstep <;> cases hstep'
  case add input =>
    rw [hsame]
  case remove id =>
    rw [hsame]
  case clear => rfl
  case search query options => exact hsame

theorem run_docs {st st' copy copy' : Instance N M P} (hsame : copy.2 = st.2)
    (hrun : run (step o) st calls = some st') (hrun' : run (step o) copy calls = some copy') :
    copy'.2 = st'.2 := by
  induction calls generalizing st copy with
  | nil =>
    cases hrun
    cases hrun'
    exact hsame
  | cons call rest ih =>
    obtain ⟨next, hstep, hrest⟩ := Option.bind_eq_some_iff.mp hrun
    obtain ⟨next', hstep', hrest'⟩ := Option.bind_eq_some_iff.mp hrun'
    exact ih (step_docs hsame hstep hstep') hrest hrest'

/-- A word is one token, and so is each beginning of it with two characters or more. -/
def beginnings (word : String) : List (Token Bool) :=
  (List.range (word.toList.length - 1)).map fun i =>
    ⟨String.ofList (word.toList.take (i + 2)), some (i + 2 < word.toList.length)⟩

def wordOptions : Options Nat Bool where
  fields := ["title"]
  setup := ⟨⟨fun _ word => beginnings word, id⟩, toString, fun _ _ => "undefined", id, id⟩
  pipelineWithoutNGrams := ⟨fun _ word => [⟨word, none⟩], id⟩
  trim := id
  sortString a b := if a < b then .lt else if b < a then .gt else .eq

def word (id text : String) : Call Nat Unit :=
  .add ⟨.str id, OMap.empty.set "title" text, ()⟩

/-- The instance after some calls. -/
def after (st : Instance Nat Bool Unit) (calls : List (Call Nat Unit)) : Instance Nat Bool Unit :=
  (run (step wordOptions) st calls).getD st

def fresh : Instance Nat Bool Unit := (newInstance, OMap.empty)

/-- Two words begin alike, and one of them goes. -/
def firstCalls : List (Call Nat Unit) := [word "a" "cat", word "b" "car", .remove (.str "a")]

def laterCalls : List (Call Nat Unit) :=
  [word "c" "cap", .search "cab" ⟨[], none, .on, true⟩, word "b" "bar"]

end SuperFunctions.SearchFn.SnapshotAgreement
