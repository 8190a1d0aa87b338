import SuperFunctions.Secfn.ServiceRuns

/-!
# Runtime tokens stay inside their scope

What is read with a verified token is the current version of a live secret of the tenant, the
namespace and the environment that the token names, whatever was created and renamed since. The
token keeps names, so these are the records that bear the names when the secret is read.
-/
namespace SuperFunctions.Secfn.TokenConfinement

open Vault VaultScopes VaultService
open VaultCalls (Response decryptRuntimeSecret readRuntimeSecret getSecretRow_some)
open ServiceRuns

variable {P : Type} {host : Host P} {v v' : Tables P}

/-! ## Scopes and values -/

/-- The secret is of the tenant of the token, and its namespace and its environment bear the
names of the token, as far as the token has them. -/
structure InScope (v : Tables P) (token : ServiceToken) (s : Secret) : Prop where
  tenantId : truthy token.tenantId ≠ none → s.tenantId = token.tenantId
  «namespace» : truthy token.«namespace» ≠ none →
    ∃ n, getNamespace v s.namespaceId = .ok n ∧ token.«namespace» = some n.slug
  environment : truthy token.environment ≠ none →
    ∃ e, getEnvironment v s.environmentId = .ok e ∧ token.environment = some e.name

/-- The value is what the current version of the secret holds. -/
def IsCurrent (host : Host P) (v : Tables P) (s : Secret) (value : String) : Prop :=
  ∃ r ∈ v.versions, r.secretId = s.id ∧ r.version = s.currentVersion ∧
    host.decryptSecret r.encryptedPayload (secretAad s r.version) = some value

def NotExpired (host : Host P) (token : ServiceToken) (now : Int) : Prop :=
  ∀ text, truthy token.expiresAt = some text → ∃ date, host.parseDate text = some date ∧ now < date

/-! ## Verification -/

variable {token : ServiceToken}

theorem notExpired_of_false {now : Int} (h : tokenExpired host token now = false) :
    NotExpired host token now := by
  intro text htext
  unfold tokenExpired at h
  rw [htext] at h
  dsimp only at h
  split at h
  · cases h
  case h_2 date hdate =>
    refine ⟨date, hdate, ?_⟩
    have hlate := of_decide_eq_false h
    omega

variable {scope : Scope}

theorem verifyRuntimeToken_ok {now : Int} {raw : String}
    (h : verifyRuntimeToken host v now raw scope = .ok token) :
    token ∈ v.tokens ∧ token.revoked = false ∧ NotExpired host token now := by
  unfold verifyRuntimeToken at h
  split at h
  · cases h
  case h_2 found hfind =>
  split at h
  · cases h
  case isFalse hlive =>
  split at h
  · cases h
  case isFalse hfresh =>
  have hsame : token = found := by
    obtain ⟨scope, _, h⟩ := bind_ok h
    dsimp only at h
    split at h
    · cases h
    obtain ⟨found, _, h⟩ := bind_ok h
    obtain ⟨environment, _, h⟩ := bind_ok h
    split at h
    · cases h
    split at h
    · cases h
    · cases h
      rfl
  subst hsame
  exact ⟨List.mem_of_find?_eq_some hfind, Bool.eq_false_iff.mpr hlive,
    notExpired_of_false (Bool.eq_false_iff.mpr hfresh)⟩

/-! ## Reading -/

variable {s : Secret}

theorem hydrateSecret_environment (h : Sound host v) (hs : s ∈ v.secrets) :
    ∃ e, getEnvironment v s.environmentId = .ok e ∧
      (hydrateSecret v s).environment = some e.name := by
  obtain ⟨e, he, hid⟩ := h.housed s hs
  have hget : getEnvironment v s.environmentId = .ok e := by
    rw [← hid]
    exact getEnvironment_of_mem h.directory he
  refine ⟨e, hget, ?_⟩
  unfold hydrateSecret
  rw [hget]

variable {r : ResolvedScope}

theorem inScope_of_runtime (h : Sound host v) (hs : s ∈ v.secrets) (hr : Resolves v r)
    (hin : inRuntimeScope token r (hydrateSecret v s) = true) : InScope v token s := by
  obtain ⟨htenant, hns, henv, _, hid, _⟩ := of_decide_eq_true hin
  have hid : r.«namespace».id = s.namespaceId := hid
  refine ⟨fun htruthy => (htenant.resolve_left htruthy).symm, fun htruthy => ?_, fun htruthy => ?_⟩
  · refine ⟨r.«namespace», ?_, hns.resolve_left htruthy⟩
    rw [← hid]
    exact getNamespace_of_mem h.directory hr.namespaceIn
  · obtain ⟨e, hget, hname⟩ := hydrateSecret_environment h hs
    exact ⟨e, hget, (henv.resolve_left htruthy).trans hname⟩

theorem decryptRuntimeSecret_current {response : Response}
    (h : decryptRuntimeSecret host v (hydrateSecret v s) = .ok response) :
    IsCurrent host v s response.value := by
  unfold decryptRuntimeSecret at h
  split at h
  · cases h
  case h_2 row hrow =>
  split at h
  · cases h
  case h_2 value hdecrypt =>
  cases h
  unfold getSecretVersion at hrow
  split at hrow
  case h_2 => cases hrow
  case h_1 found hfind =>
  cases hrow
  have hkey := find?_satisfies hfind
  exact ⟨row, List.mem_of_find?_eq_some hfind, hkey.1, hkey.2, hdecrypt⟩

/-- The secret that a read returns. -/
structure ReadsSecret (host : Host P) (v : Tables P) (token : ServiceToken) (key value : String)
    (s : Secret) : Prop where
  stored : s ∈ v.secrets
  key : s.key = key
  live : s.revoked = false
  inScope : InScope v token s
  current : IsCurrent host v s value

theorem readRuntimeSecret_ok (h : Sound host v) {key : String} {response : Response}
    (hread : readRuntimeSecret host v key token scope = (v', .ok response)) :
    hasScope token.scopes "secret" key = true ∧
      ∃ s, ReadsSecret host v' token key response.value s := by
  unfold readRuntimeSecret at hread
  split at hread
  · cases hread
  case isFalse hscope =>
  refine ⟨Bool.not_eq_false _ |>.mp hscope, ?_⟩
  split at hread
  · cases hread
  case h_2 w r hresolve =>
  obtain ⟨hsteady, hresolves⟩ := resolving_accesses h hresolve
  split at hread
  · cases hread
  case h_2 s hfind =>
  split at hread
  · cases hread
  case isFalse hlive =>
  dsimp only at hread
  split at hread
  case isFalse => cases hread
  case isTrue hin =>
  obtain ⟨rfl, hdecrypt⟩ := Prod.mk.inj hread
  obtain ⟨e, _, hfind⟩ := Option.bind_eq_some_iff.mp hfind
  have hrow := find?_satisfies hfind
  have hs := List.mem_of_find?_eq_some hfind
  exact ⟨s, hs, hrow.2.2.2, Bool.eq_false_iff.mpr hlive,
    inScope_of_runtime hsteady.sound hs (hresolves r rfl) hin,
    decryptRuntimeSecret_current hdecrypt⟩

/-- A value of a set comes from one of its members. -/
structure ReadsMember (host : Host P) (v : Tables P) (token : ServiceToken) (set : SecretSet)
    (name value : String) (m : SetMember) (s : Secret) : Prop where
  member : m ∈ v.members
  ofSet : m.setId = set.id
  ofSecret : s.id = m.secretId
  name : name = m.«alias».getD s.key
  reads : ReadsSecret host v token s.key value s

theorem resolveMembers_ok (h : Sound host v) {set : SecretSet} (hr : Resolves v r) :
    ∀ (members : List SetMember) {acc secrets : List (String × String)},
      (∀ m ∈ members, m ∈ v.members ∧ m.setId = set.id) →
      (∀ p ∈ acc, ∃ m s, ReadsMember host v token set p.1 p.2 m s) →
      resolveMembers host v token r members acc = .ok secrets →
      ∀ p ∈ secrets, ∃ m s, ReadsMember host v token set p.1 p.2 m s
  | [], acc, secrets, _, hacc, hok => by
    cases hok
    exact hacc
  | m :: rest, acc, secrets, hmembers, hacc, hok => by
    have hrest : ∀ m ∈ rest, m ∈ v.members ∧ m.setId = set.id :=
      fun other hother => hmembers other (List.mem_cons_of_mem _ hother)
    obtain ⟨row, hrow, hok⟩ := bind_ok hok
    obtain ⟨hs, hid⟩ := getSecretRow_some hrow
    dsimp only at hok
    split at hok
    · exact resolveMembers_ok h hr rest hrest hacc hok
    case isFalse hlive =>
    split at hok
    · cases hok
    case isFalse hin =>
    obtain ⟨response, hresponse, hok⟩ := bind_ok hok
    split at hok
    · cases hok
    refine resolveMembers_ok h hr rest hrest (fun p hp => ?_) hok
    rcases List.mem_append.mp hp with hp | hp
    · exact hacc p hp
    rw [List.mem_singleton.mp hp]
    obtain ⟨hmember, hset⟩ := hmembers m List.mem_cons_self
    exact ⟨m, row, hmember, hset, hid, rfl, hs, rfl, Bool.eq_false_iff.mpr hlive,
      inScope_of_runtime h hs hr (Bool.not_eq_false _ |>.mp hin),
      decryptRuntimeSecret_current hresponse⟩

variable {tenantId : Option String} {name : String}

theorem findSet_some {namespaceId : Nat} {environmentId : Option Nat} {set : SecretSet}
    (h : findSet v tenantId namespaceId name environmentId = some set) :
    set ∈ v.sets ∧ set.name = name := by
  have hrow := find?_satisfies h
  exact ⟨List.mem_of_find?_eq_some h, hrow.2.2.1⟩

theorem resolveRuntimeSet_ok (h : Sound host v) {response : SetResponse}
    (hread : resolveRuntimeSet host v name token scope = (v', .ok response)) :
    hasScope token.scopes "set" name = true ∧ ∃ set ∈ v'.sets, set.name = name ∧
      ∀ p ∈ response.secrets, ∃ m s, ReadsMember host v' token set p.1 p.2 m s := by
  unfold resolveRuntimeSet at hread
  split at hread
  · cases hread
  case isFalse hscope =>
  refine ⟨Bool.not_eq_false _ |>.mp hscope, ?_⟩
  split at hread
  · cases hread
  case h_2 w r hresolve =>
  obtain ⟨hsteady, hresolves⟩ := resolving_accesses h hresolve
  split at hread
  · cases hread
  case h_2 set hfind =>
  split at hread
  · cases hread
  case h_2 secrets hsecrets =>
  obtain ⟨rfl, hresponse⟩ := Prod.mk.inj hread
  cases hresponse
  have hset : set ∈ w.sets ∧ set.name = name := by
    rcases Option.or_eq_some_iff.mp hfind with hbound | ⟨_, hunbound⟩
    · exact findSet_some hbound
    · exact findSet_some hunbound
  refine ⟨set, hset.1, hset.2, ?_⟩
  apply resolveMembers_ok hsteady.sound (hresolves r rfl) _ ?_ ?_ hsecrets
  · intro m hm
    obtain ⟨hin, hid⟩ := List.mem_filter.mp hm
    exact ⟨hin, of_decide_eq_true hid⟩
  · exact nofun

/-! ## What a token is issued with -/

theorem ensureNamespace_id {id : Nat} {name : Option String} {create : Bool}
    {r : Tables P × Namespace} (h : ensureNamespace host v tenantId (some id) name create = .ok r) :
    getNamespace v id = .ok r.2 := by
  obtain ⟨n, hn, h⟩ := bind_ok h
  split at h
  · cases h
  split at h
  · cases h
  · cases h
    exact hn

theorem tokenRecords_ids {records : Option Namespace × Option Environment}
    (h : tokenRecords host v scope = .ok records) :
    (∀ id, scope.namespaceId = some id → ∃ n, getNamespace v id = .ok n ∧ records.1 = some n) ∧
    ∀ id, scope.environmentId = some id →
      ∃ e, getEnvironment v id = .ok e ∧ records.2 = some e := by
  obtain ⟨found, hfound, h⟩ := bind_ok h
  have hnamespace : ∀ id, scope.namespaceId = some id →
      ∃ n, getNamespace v id = .ok n ∧ found = some n := by
    intro id hid
    unfold scopedNamespace at hfound
    rw [hid] at hfound
    cases hensure : ensureNamespace host v scope.tenantId (some id) scope.«namespace» false with
    | error refusal =>
      simp only [hensure] at hfound
      cases hfound
    | ok r =>
      simp only [hensure] at hfound
      cases hfound
      exact ⟨r.2, ensureNamespace_id hensure, rfl⟩
  split at h
  case h_1 hnone =>
    cases h
    exact ⟨hnamespace, fun id hid => by rw [hnone] at hid; cases hid⟩
  case h_2 id hid =>
    obtain ⟨e, he, h⟩ := bind_ok h
    split at h
    · cases h
    split at h
    · cases h
      refine ⟨hnamespace, fun other hother => ?_⟩
      rw [hid] at hother
      cases hother
      exact ⟨e, he, rfl⟩
    case h_2 parentId hparent =>
      split at h
      · cases h
      case isFalse hmatch =>
        obtain ⟨r, hr, h⟩ := bind_ok h
        cases h
        refine ⟨fun other hother => ?_, fun other hother => ?_⟩
        · obtain ⟨n, hn, hsome⟩ := hnamespace other hother
          -- the namespace of the environment is the one that was named
          have hsameId : n.id = parentId := by
            by_contra hne
            apply hmatch
            rw [hsome]
            exact ⟨by nofun, fun heq => hne (Option.some.inj heq)⟩
          have hother' : other = parentId := (getNamespace_some hn).2.symm.trans hsameId
          subst hother'
          exact ⟨r.2, ensureNamespace_id hr, rfl⟩
        · rw [hid] at hother
          cases hother
          exact ⟨e, he, rfl⟩

/-- The record of a token that is issued. -/
structure Issued (v : Tables P) (scope : Scope) (scopes : List String) (expiresAt : Option String)
    (record : ServiceToken) : Prop where
  tenantId : scope.tenantId ≠ none → record.tenantId = scope.tenantId
  «namespace» : ∀ id n, scope.namespaceId = some id → getNamespace v id = .ok n →
    record.«namespace» = some n.slug
  environment : ∀ id e, scope.environmentId = some id → getEnvironment v id = .ok e →
    record.environment = some e.name
  scopes : record.scopes = scopes
  expiresAt : record.expiresAt = expiresAt

variable {expiresAt : Option String} {record : ServiceToken} {scopes : List String}

theorem createServiceToken_issued {raw : String}
    (h : createServiceToken host v scope raw scopes expiresAt = .ok (v', record)) :
    Issued v scope scopes expiresAt record := by
  obtain ⟨records, hrecords, h⟩ := bind_ok h
  obtain ⟨hnamespace, henvironment⟩ := tokenRecords_ids hrecords
  dsimp only at h
  split at h
  · cases h
  cases h
  refine ⟨fun htenant => ?_, fun id n hid hn => ?_, fun id e hid he => ?_, rfl, rfl⟩
  · obtain ⟨tenant, htenant⟩ := Option.ne_none_iff_exists'.mp htenant
    rw [htenant]
    rfl
  · obtain ⟨m, hm, hsome⟩ := hnamespace id hid
    rw [hn] at hm
    cases hm
    rw [hsome]
    rfl
  · obtain ⟨f, hf, hsome⟩ := henvironment id hid
    rw [he] at hf
    cases hf
    rw [hsome]
    rfl

/-! ## Whole runs -/

/-- The row of an issued token, after any operations, is the token as it was issued. -/
theorem issued_later {before : List Op} {raw : String} {between : List Op} {v₀ v₁ : Tables P}
    (hbefore : performAll host Tables.empty before = v₀)
    (hissue : createServiceToken host v₀ scope raw scopes expiresAt = .ok (v₁, record))
    (htoken : token ∈ (performAll host v₁ between).tokens) (hid : token.id = record.id) :
    token = { record with revoked := token.revoked } := by
  have hsound : Sound host v₀ := hbefore ▸ (performAll_steady before sound_empty).sound
  have hissued := createServiceToken_steady hsound hissue
  have hrun : Steady host v₁ (performAll host v₁ between) :=
    performAll_steady between hissued.sound
  have hrecord : record ∈ v₁.tokens := by
    rw [(createServiceToken_ok hissue).1]
    exact List.mem_append_right _ (List.mem_singleton.mpr rfl)
  obtain ⟨row, hrow, hsame⟩ := hrun.tokens record hrecord
  have hrowId : row.id = record.id := by rw [hsame.same]
  have heq : token = row :=
    List.inj_on_of_nodup_map hrun.sound.tokenIds htoken hrow (hid.trans hrowId.symm)
  rw [heq]
  exact hsame.same

/-- A token that is issued, verified and used, with any operations in between. -/
theorem runtime_token_confined {before between after : List Op} {scope requested : Scope}
    {raw given : String} {scopes : List String} {expiresAt : Option String} {now : Int}
    {record token : ServiceToken} {v₀ v₁ v₂ v₃ : Tables P}
    (hbefore : performAll host Tables.empty before = v₀)
    (hissue : createServiceToken host v₀ scope raw scopes expiresAt = .ok (v₁, record))
    (hbetween : performAll host v₁ between = v₂)
    (hverify : verifyRuntimeToken host v₂ now given requested = .ok token)
    (hid : token.id = record.id) (hafter : performAll host v₂ after = v₃) :
    Issued v₀ scope scopes expiresAt record ∧ token = record ∧ token ∈ v₂.tokens ∧
      token.revoked = false ∧ NotExpired host token now ∧
    (∀ (key : String) (v₄ : Tables P) (response : Response),
      readRuntimeSecret host v₃ key token requested = (v₄, .ok response) →
        hasScope record.scopes "secret" key = true ∧
          ∃ s, ReadsSecret host v₄ record key response.value s) ∧
    ∀ (name : String) (v₄ : Tables P) (response : SetResponse),
      resolveRuntimeSet host v₃ name token requested = (v₄, .ok response) →
        hasScope record.scopes "set" name = true ∧ ∃ set ∈ v₄.sets, set.name = name ∧
          ∀ p ∈ response.secrets, ∃ m s, ReadsMember host v₄ record set p.1 p.2 m s := by
  obtain ⟨htoken, hlive, hfresh⟩ := verifyRuntimeToken_ok hverify
  have hrow : token = { record with revoked := token.revoked } := by
    subst hbetween
    exact issued_later hbefore hissue htoken hid
  have hrecord : record.revoked = false := by
    obtain ⟨records, _, hcreate⟩ := bind_ok hissue
    dsimp only at hcreate
    split at hcreate
    · cases hcreate
    · cases hcreate
      rfl
  have hsame : token = record := by
    rw [hrow, hlive, ← hrecord]
  subst hsame
  have hsound₀ : Sound host v₀ := hbefore ▸ (performAll_steady before sound_empty).sound
  have hsound₂ : Sound host v₂ :=
    hbetween ▸ (performAll_steady between (createServiceToken_steady hsound₀ hissue).sound).sound
  have hsound₃ : Sound host v₃ := hafter ▸ (performAll_steady after hsound₂).sound
  exact ⟨createServiceToken_issued hissue, rfl, htoken, hlive, hfresh,
    fun key v₄ response hread => readRuntimeSecret_ok hsound₃ hread,
    fun name v₄ response hread => resolveRuntimeSet_ok hsound₃ hread⟩

def appScope : Scope := ⟨some "acme", none, some "app", none, some "live"⟩

/-- The namespace 0 and the environment 1 with a secret. -/
def founding : List Op := [.call (.createSecret appScope "KEY" "one")]

/-- A token for the namespace 0 and the environment 1. -/
def issuing : List Op :=
  [.createServiceToken ⟨some "acme", some 0, none, some 1, none⟩ "raw" ["*"] none]

def appToken : ServiceToken := ⟨3, "raw", some "acme", some "app", some "live", ["*"], none, false⟩

def rotating : List Op := [.call (.rotateSecret 0 "two")]

theorem runtime_token_confined_rotating :
    (readRuntimeSecret plainHost
      (performAll plainHost Tables.empty (founding ++ issuing ++ rotating)) "KEY" appToken
      appScope).2 = .ok ⟨0, "KEY", "two", some "live", 2⟩ ∧
    hasScope appToken.scopes "secret" "KEY" = true ∧
    ∃ s, ReadsSecret plainHost
      (readRuntimeSecret plainHost
        (performAll plainHost Tables.empty (founding ++ issuing ++ rotating)) "KEY" appToken
        appScope).1 appToken "KEY" "two" s := by
  have hanswer : (readRuntimeSecret plainHost
      (performAll plainHost Tables.empty (founding ++ issuing ++ rotating)) "KEY" appToken
      appScope).2 = .ok ⟨0, "KEY", "two", some "live", 2⟩ := by decide +kernel
  have hissue : createServiceToken plainHost (performAll plainHost Tables.empty founding)
      ⟨some "acme", some 0, none, some 1, none⟩ "raw" ["*"] none =
        .ok (performAll plainHost Tables.empty (founding ++ issuing), appToken) := by
    decide +kernel
  have hverify : verifyRuntimeToken plainHost
      (performAll plainHost Tables.empty (founding ++ issuing)) 0 "raw" appScope =
        .ok appToken := by decide +kernel
  have hafter : performAll plainHost (performAll plainHost Tables.empty (founding ++ issuing))
      rotating = performAll plainHost Tables.empty (founding ++ issuing ++ rotating) := by
    simp only [performAll, List.foldl_append]
  have hbetween :
      performAll plainHost (performAll plainHost Tables.empty (founding ++ issuing)) [] =
        performAll plainHost Tables.empty (founding ++ issuing) := rfl
  obtain ⟨_, _, _, _, _, hreads, _⟩ :=
    runtime_token_confined rfl hissue hbetween hverify rfl hafter
  exact ⟨hanswer, hreads "KEY" _ _ (Prod.ext rfl hanswer)⟩

/-- The namespace gets another slug and label and a new one takes the old name. -/
def reusing : List Op :=
  [.updateNamespace 0 (some "old") (some "Old"), .createNamespace (some "acme") "app" none,
    .call (.createSecret appScope "KEY" "two")]

theorem names_are_reused :
    (createServiceToken plainHost (performAll plainHost Tables.empty founding)
      ⟨some "acme", some 0, none, some 1, none⟩ "raw" ["*"] none).map Prod.snd = .ok appToken ∧
    verifyRuntimeToken plainHost
      (performAll plainHost Tables.empty (founding ++ issuing ++ reusing)) 0 "raw" appScope =
        .ok appToken ∧
    (readRuntimeSecret plainHost
      (performAll plainHost Tables.empty (founding ++ issuing ++ reusing)) "KEY" appToken
      appScope).2 = .ok ⟨5, "KEY", "two", some "live", 1⟩ ∧
    ∃ s ∈ (performAll plainHost Tables.empty (founding ++ issuing ++ reusing)).secrets,
      s.id = 5 ∧ s.namespaceId ≠ 0 := by
  refine ⟨?_, ?_, ?_, ?_⟩
  · decide +kernel
  · decide +kernel
  · decide +kernel
  · decide +kernel

/-! ## Revocation -/

/-- Whatever is done with a vault, its directory stays in order, a token changes only by being
revoked, and a revoked one is never accepted again. -/
theorem revocation_final (host : Host P) (before after : List Op) :
    let v := performAll host Tables.empty before
    let v' := performAll host v after
    Sound host v' ∧ TokensKept v v' ∧ ∀ t ∈ v.tokens, t.revoked = true →
      ∀ now given requested token, verifyRuntimeToken host v' now given requested = .ok token →
        token.id ≠ t.id := by
  intro v v'
  have hlater : Steady host v v' :=
    performAll_steady after (performAll_steady before sound_empty).sound
  refine ⟨hlater.sound, hlater.tokens, fun t ht hrevoked now given requested token hverify hid => ?_⟩
  obtain ⟨htoken, hlive, -⟩ := verifyRuntimeToken_ok hverify
  obtain ⟨t', ht', hsame⟩ := hlater.tokens t ht
  have hid' : t'.id = t.id := by rw [hsame.same]
  have heq : token = t' :=
    List.inj_on_of_nodup_map hlater.sound.tokenIds htoken ht' (hid.trans hid'.symm)
  have hdead := hsame.revoked hrevoked
  rw [← heq, hlive] at hdead
  cases hdead

end SuperFunctions.Secfn.TokenConfinement
