import SuperFunctions.Secfn.SecretRuns

/-!
# Stored secrets are consistent and readable

For every interleaving of calls: a stored secret has one current version, which holds the value
of the call that wrote it, unless a delete has got as far as its versions; secrets of a tenant
have their keys to themselves and are what a read of their key and scope returns; and no read
that starts after a revocation or a deletion returns the value.
-/
namespace SuperFunctions.Secfn.SecretConsistency

open Lib.Processes Lib.Transition Vault VaultScopes VaultCalls StoredSecrets SecretRuns List Option

variable {P : Type} {host : Host P} {v : Tables P} {procs : List (Proc P)}

/-! ## The current version -/

def versionRows (v : Tables P) (s : Secret) : List (SecretVersion P) :=
  v.versions.filter fun r => r.secretId = s.id ∧ r.version = s.currentVersion

/-- The only row of the current version, and the value of the call that wrote it. -/
structure CurrentVersion (host : Host P) (procs : List (Proc P)) (v : Tables P) (s : Secret)
    (r : SecretVersion P) (value : String) : Prop where
  only : versionRows v s = [r]
  decrypts : host.decryptSecret r.encryptedPayload (secretAad s r.version) = some value
  written : ∃ call : Call, procs[r.id]? = some ⟨call, .committed⟩ ∧
    writes r.id call = some (s.id, value)

theorem filter_key {α κ : Type} [DecidableEq κ] {f : α → κ} {l : List α} {a : α}
    (hnodup : (l.map f).Nodup) (ha : a ∈ l) : l.filter (fun b => f b = f a) = [a] := by
  have hin : a ∈ l.filter fun b => f b = f a := mem_filter.mpr ⟨ha, decide_eq_true rfl⟩
  have hsub : ((l.filter fun b => f b = f a).map f).Nodup :=
    hnodup.sublist (filter_sublist.map f)
  have hkey : ∀ b ∈ l.filter (fun b => f b = f a), f b = f a :=
    fun b hb => of_decide_eq_true (mem_filter.mp hb).2
  match hrows : l.filter fun b => f b = f a with
  | [] =>
    rw [hrows] at hin
    cases hin
  | [b] =>
    rw [hrows] at hin
    rw [mem_singleton.mp hin]
  | b :: c :: rest =>
    rw [hrows] at hsub hkey
    have hb := hkey b mem_cons_self
    have hc := hkey c (mem_cons_of_mem _ mem_cons_self)
    rw [map_cons, map_cons, hb, hc] at hsub
    exact absurd mem_cons_self (nodup_cons.mp hsub).1

variable {s : Secret}

theorem currentVersion_of_stored (h : Stored host procs v) (hs : s ∈ v.secrets)
    (hcurrent : HasCurrent v s) : ∃ r value, CurrentVersion host procs v s r value := by
  obtain ⟨r, hr, hid, hversion⟩ := hcurrent
  obtain ⟨_, call, value, hcall, hwrites, hpayload⟩ := h.sealed r hr
  refine ⟨r, value, ?_, ?_, call, hcall, hid ▸ hwrites⟩
  · have hrows : versionRows v s = v.versions.filter fun b => versionKey b = versionKey r := by
      apply filter_congr
      intro b _
      simp only [versionKey, hid, hversion, Prod.mk.injEq]
    rw [hrows]
    exact filter_key h.versionKeys hr
  · rw [hpayload s hs hid.symm]
    exact host.roundTrip value _

/-- A secret without its versions is in the middle of a delete, and revoked. -/
theorem current_or_deleting {s : VaultSystem P} (h : Consistent host s) {secret : Secret}
    (hs : secret ∈ s.shared.secrets) :
    (∃ r value, CurrentVersion host s.procs s.shared secret r value) ∨
      Unversioned s.procs secret.id ∧ secret.revoked = true := by
  rcases h.stored.current secret hs with hcurrent | ⟨j, hj⟩
  · exact .inl (currentVersion_of_stored h.stored hs hcurrent)
  · have hgone : ∀ id, kills (.deleteSecret secret.id) = some id → Gone s.shared s.procs id :=
      h.locals j _ hj
    exact .inr ⟨⟨j, hj⟩, (hgone _ rfl).revoked secret hs rfl⟩

/-! ## Reading -/

/-- The token is for the tenant, the namespace and the environment, as far as it names them. -/
structure Admits (token : ServiceToken) (tenant : String) (n : Namespace) (e : Environment) :
    Prop where
  tenantId : truthy token.tenantId = none ∨ token.tenantId = some tenant
  «namespace» : truthy token.«namespace» = none ∨ token.«namespace» = some n.slug
  environment : truthy token.environment = none ∨ token.environment = some e.name

/-- The scope of a secret, by ids. -/
def scopeOf (s : Secret) : Scope :=
  ⟨s.tenantId, some s.namespaceId, none, some s.environmentId, none⟩

/-- A read of its key and scope with a token that covers it returns the secret. -/
def Fetchable (host : Host P) (v : Tables P) (s : Secret) (tenant value : String) : Prop :=
  ∃ n ∈ v.namespaces, ∃ e ∈ v.environments, n.id = s.namespaceId ∧ e.id = s.environmentId ∧
    ∀ token, hasScope token.scopes "secret" s.key = true → Admits token tenant n e →
      readRuntimeSecret host v s.key token (scopeOf s) =
        (v, .ok ⟨s.id, s.key, value, some e.name, s.currentVersion⟩)

theorem findSecretByKey_of_stored (h : Stored host procs v) (hs : s ∈ v.secrets) {tenant : String}
    (htenant : s.tenantId = some tenant) :
    findSecretByKey v s.key (some tenant) s.namespaceId s.environmentId = some s := by
  apply find?_of_unique hs
  · exact decide_eq_true ⟨.inr htenant, rfl, rfl, rfl⟩
  intro t ht hscope
  obtain ⟨hsame, hns, henv, hkey⟩ := of_decide_eq_true hscope
  have hsame : t.tenantId = some tenant := hsame.resolve_left (by nofun)
  have hid : t.id = s.id :=
    h.keys t ht s hs (by rw [hsame]; nofun) ⟨hsame.trans htenant.symm, hns, henv, hkey⟩
  exact inj_on_of_nodup_map h.ids ht hs hid

theorem getSecretVersion_of_current {r : SecretVersion P} {value : String}
    (hcurrent : CurrentVersion host procs v s r value) :
    getSecretVersion v s.id s.currentVersion = .ok r ∧ r.version = s.currentVersion := by
  have hin : r ∈ versionRows v s := by
    rw [hcurrent.only]
    exact mem_singleton.mpr rfl
  obtain ⟨hr, hkey⟩ := mem_filter.mp hin
  have hfind : v.versions.find? (fun r => r.secretId = s.id ∧ r.version = s.currentVersion) =
      some r := by
    apply find?_of_unique hr hkey
    intro b hb hbkey
    have hbin : b ∈ versionRows v s := mem_filter.mpr ⟨hb, hbkey⟩
    rw [hcurrent.only] at hbin
    exact mem_singleton.mp hbin
  unfold getSecretVersion
  rw [hfind]
  exact ⟨rfl, (of_decide_eq_true hkey).2⟩

theorem fetchable_of_stored (h : Stored host procs v) (hs : s ∈ v.secrets)
    (hlive : s.revoked = false) {tenant : String} (htenant : s.tenantId = some tenant)
    (hnamed : tenant ≠ "") {r : SecretVersion P} {value : String}
    (hcurrent : CurrentVersion host procs v s r value) : Fetchable host v s tenant value := by
  have hplaced := h.placed s hs
  obtain ⟨n, hn, hnid, hntenant⟩ := hplaced.«namespace»
  obtain ⟨e, he, heid, hetenant, hparent⟩ := hplaced.environment
  have htruthy : truthy s.tenantId ≠ none := by
    rw [htenant]
    simp [truthy, hnamed]
  have hntenant : n.tenantId = some tenant := (hntenant htruthy).trans htenant
  have hetenant : e.tenantId = some tenant := (hetenant (by rw [htenant]; nofun)).trans htenant
  refine ⟨n, hn, e, he, hnid, heid, fun token hscope hadmits => ?_⟩
  have hresolve : resolveScope host v (scopeOf s) false true =
      (v, .ok ⟨some tenant, n, some e⟩) := by
    unfold scopeOf
    rw [htenant, ← hnid, ← heid]
    exact resolveScope_ids h.directory hn he hntenant hetenant (hnid ▸ hparent)
  have hfound : findSecretByKey v s.key (some tenant) n.id e.id = some s := by
    rw [hnid, heid]
    exact findSecretByKey_of_stored h hs htenant
  have hhydrate : hydrateSecret v s =
      { s with «namespace» := some n.slug, environment := some e.name } := by
    unfold hydrateSecret
    rw [← hnid, ← heid, getNamespace_of_mem h.directory hn, getEnvironment_of_mem h.directory he]
  have hin : inRuntimeScope token ⟨some tenant, n, some e⟩ (hydrateSecret v s) = true := by
    rw [hhydrate]
    apply decide_eq_true
    refine ⟨?_, hadmits.«namespace», hadmits.environment, .inr htenant.symm, hnid, .inr rfl⟩
    rw [htenant]
    exact hadmits.tenantId
  obtain ⟨hrow, hversion⟩ := getSecretVersion_of_current hcurrent
  have hdecrypt : decryptRuntimeSecret host v (hydrateSecret v s) =
      .ok ⟨s.id, s.key, value, some e.name, s.currentVersion⟩ := by
    rw [hhydrate]
    unfold decryptRuntimeSecret
    simp only [hrow]
    have haad : secretAad { s with «namespace» := some n.slug, environment := some e.name }
        r.version = secretAad s r.version := rfl
    rw [haad, hcurrent.decrypts, hversion]
  unfold readRuntimeSecret
  rw [if_neg (by rw [hscope]; decide), hresolve]
  dsimp only
  rw [bind_some, hfound]
  dsimp only
  rw [if_neg (by rw [hlive]; decide), if_pos hin, hdecrypt]

/-! ## After a revocation -/

/-- The call has not made its first access. -/
def Waiting (procs : List (Proc P)) (j : Nat) : Prop :=
  procs[j]? = none ∨ ∃ call : Call, procs[j]? = some ⟨call, .start⟩

/-- The read has nothing of the secret. -/
def Apart (id : Nat) : Stage P → Prop
  | .located _ s => s.id ≠ id
  | .hydrated s => s.id ≠ id
  | .answered secretId _ _ => secretId ≠ id
  | _ => True

/-- An access of a call while the row of the secret is gone or revoked. -/
theorem stageStep_apart {i id : Nat} {call : Call} {stage stage' : Stage P} {v' : Tables P}
    (hgone : ∀ t ∈ v.secrets, t.id = id → t.revoked = true) (h : Apart id stage)
    (hstep : stageStep host v i call stage = some (v', stage')) : Apart id stage' := by
  have hwritten : ∀ (after : Stage P) {result : Except Refusal (Tables P)}, Apart id after →
      written v result after = (v', stage') → Apart id stage' := by
    intro after result hafter hwritten
    rcases written_cases hwritten with ⟨_, rfl⟩ | ⟨refusal, _, rfl⟩
    · exact hafter
    · trivial
  cases call with
  | createSecret scope key value =>
    cases stage with
    | start =>
      simp only [stageStep, createSecret] at hstep
      split at hstep
      · cases hstep
        trivial
      split at hstep <;> cases hstep <;> trivial
    | resolved r =>
      obtain ⟨e, _, hstep⟩ := map_eq_some_iff.mp hstep
      split at hstep <;> cases hstep <;> trivial
    | built s r => exact hwritten .committed trivial (some.inj hstep)
    | _ => cases hstep
  | updateSecret target key confirmed =>
    cases stage with
    | start =>
      simp only [stageStep, updateSecret] at hstep
      split at hstep
      · cases hstep
        trivial
      split at hstep
      · cases hstep
        trivial
      split at hstep
      · cases hstep
        trivial
      split at hstep
      · cases hstep
        trivial
      split at hstep <;> cases hstep <;> trivial
    | found s =>
      simp only [stageStep, updateSecret] at hstep
      split at hstep
      · split at hstep <;> cases hstep <;> trivial
      · cases hstep
        trivial
    | cleared => exact hwritten .finished trivial (some.inj hstep)
    | _ => cases hstep
  | rotateSecret target value =>
    cases stage with
    | start =>
      simp only [stageStep, rotateSecret] at hstep
      split at hstep <;> cases hstep <;> trivial
    | built s r => exact hwritten .committed trivial (some.inj hstep)
    | _ => cases hstep
  | revokeSecret target =>
    cases stage with
    | start =>
      simp only [stageStep, revokeSecret] at hstep
      split at hstep <;> cases hstep <;> trivial
    | found s => exact hwritten .finished trivial (some.inj hstep)
    | _ => cases hstep
  | deleteSecret target =>
    cases stage with
    | start =>
      simp only [stageStep, deleteSecret] at hstep
      split at hstep <;> cases hstep <;> trivial
    | found s => exact hwritten .marked trivial (some.inj hstep)
    | marked | unlisted | unversioned =>
      cases hstep
      trivial
    | _ => cases hstep
  | readRuntimeSecret key token scope =>
    cases stage with
    | start =>
      simp only [stageStep, readRuntimeSecretStep] at hstep
      split at hstep
      · cases hstep
        trivial
      split at hstep <;> cases hstep <;> trivial
    | resolved r =>
      obtain ⟨e, _, hstep⟩ := map_eq_some_iff.mp hstep
      split at hstep
      case h_1 s hfind =>
        split at hstep
        · cases hstep
          trivial
        case isFalse hlive =>
          cases hstep
          -- the row that was found is not revoked
          intro hid
          exact hlive (hgone s (mem_of_find?_eq_some hfind) hid)
      case h_2 =>
        cases hstep
        trivial
    | located r s =>
      simp only [stageStep, readRuntimeSecretStep] at hstep
      split at hstep
      · cases hstep
        exact h
      · cases hstep
        trivial
    | hydrated s =>
      simp only [stageStep, readRuntimeSecretStep] at hstep
      split at hstep
      · cases hstep
        trivial
      split at hstep
      · cases hstep
        trivial
      · cases hstep
        exact h
    | _ => cases hstep

/-- The calls `late` have nothing of the secret, which is gone. -/
structure Withdrawn (host : Host P) (id : Nat) (late : Nat → Prop) (s : VaultSystem P) : Prop where
  consistent : Consistent host s
  gone : Gone s.shared s.procs id
  apart : Each (fun _ j p => late j → Apart id p.stage) s

theorem step_withdrawn {id : Nat} {late : Nat → Prop} {s s' : VaultSystem P} {a : Act Call Unit}
    (h : Withdrawn host id late s) (hstep : step host s a = some s') :
    Withdrawn host id late s' := by
  have hconsistent := step_consistent h.consistent hstep
  rcases step_cases hstep with ⟨call, rfl, rfl⟩ | ⟨i, call, stage, v', stage', rfl, hp, hnext, rfl⟩
  · exact ⟨hconsistent, gone_kept h.gone (kept_refl _ _) (keeps_append _) not_createdBy_new,
      each_spawn h.apart fun _ => trivial⟩
  have hopen := stageStep_open hnext
  have hadvances := stageStep_advances h.consistent.stored hp (h.consistent.locals i _ hp) hnext
  refine ⟨hconsistent, gone_kept h.gone hadvances.kept (keeps_set hp hopen)
    (not_createdBy hp hopen), each_move (fun hlate => ?_) fun j r _ hr => h.apart j r hr⟩
  exact stageStep_apart h.gone.revoked (h.apart i _ hp hlate) hnext

/-- A read that has not started when a revocation or a deletion is complete. -/
theorem never_answered {s s' : VaultSystem P} (h : Consistent host s) {i id : Nat} {call : Call}
    (hdone : s.procs[i]? = some ⟨call, .finished⟩) (hkills : kills call = some id)
    {bs : List (Act Call Unit)} (hrun : run (step host) s bs = some s') {j : Nat}
    (hwait : Waiting s.procs j) {other : Call} {version : Nat} {value : String} :
    s'.procs[j]? ≠ some ⟨other, .answered id version value⟩ := by
  have hlocal : ∀ id, kills call = some id → Gone s.shared s.procs id := h.locals i _ hdone
  have hstart : Withdrawn host id (Waiting s.procs) s := by
    refine ⟨h, hlocal id hkills, fun k p hp hlate => ?_⟩
    rcases hlate with hnone | ⟨c, hc⟩
    · rw [hnone] at hp
      cases hp
    · rw [hc] at hp
      cases hp
      trivial
  have hend := run_invariant (step host) (fun _ _ _ hs hstep => step_withdrawn hs hstep) hstart hrun
  intro hanswer
  exact hend.apart j _ hanswer hwait rfl

/-! ## Every run -/

def named (tenantId : Option String) : Scope := ⟨tenantId, none, some "app", none, some "live"⟩

def moves (i n : Nat) : List (Act Call Unit) := List.replicate n (.move i ())

/-- A created and rotated secret. -/
def rotating : List (Act Call Unit) :=
  .spawn (.createSecret (named (some "acme")) "KEY" "one") :: moves 0 3 ++
    .spawn (.rotateSecret 0 "two") :: moves 1 2

/-- A delete that has removed the versions and not the row. -/
def deleting : List (Act Call Unit) :=
  .spawn (.createSecret (named (some "acme")) "KEY" "one") :: moves 0 3 ++
    .spawn (.deleteSecret 0) :: moves 1 4

/-- Two creates without a tenant: both look before either has written. -/
def tenantless : List (Act Call Unit) :=
  .spawn (.createSecret (named none) "KEY" "one") ::
    .spawn (.createSecret (named none) "KEY" "two") ::
    (moves 0 2 ++ moves 1 2 ++ moves 0 1 ++ moves 1 1)

/-- Without a tenant a secret is renamed to the key of a revoked one. -/
def renamed : List (Act Call Unit) :=
  .spawn (.createSecret (named none) "KEY" "one") :: moves 0 3 ++
    .spawn (.revokeSecret 0) :: moves 1 2 ++
    .spawn (.createSecret (named none) "OTHER" "two") :: moves 2 3 ++
    .spawn (.updateSecret 2 (some "KEY") true) :: moves 3 3

def anyToken : ServiceToken := ⟨0, "", none, none, none, ["*"], none, false⟩

end SuperFunctions.Secfn.SecretConsistency
