import SuperFunctions.Secfn.SecretRuns
import SuperFunctions.Secfn.VaultService

/-!
# Runs of the vault service

What every operation of the vault keeps: the directory is in order, every secret has its
environment, and a service token keeps all that it was issued with.
-/
namespace SuperFunctions.Secfn.ServiceRuns

open Vault VaultScopes VaultService
open VaultCalls (Call Stage stageStep getSecretRow_some)
open StoredSecrets (Stored stored_empty Modest changedAt_modest updateSecretRow_ok)
open SecretRuns (written_cases)
open List Nat Option

variable {P : Type} {host : Host P} {v v' : Tables P}

/-! ## Invariants -/

def Housed (v : Tables P) (s : Secret) : Prop := ∃ e ∈ v.environments, e.id = s.environmentId

structure Sound (host : Host P) (v : Tables P) : Prop where
  directory : DirectoryOk host v
  housed : ∀ s ∈ v.secrets, Housed v s
  tokenIds : (v.tokens.map ServiceToken.id).Nodup
  tokenFresh : ∀ t ∈ v.tokens, t.id < v.nextId

/-- The same token, possibly revoked since. -/
structure SameToken (t t' : ServiceToken) : Prop where
  same : t' = { t with revoked := t'.revoked }
  revoked : t.revoked = true → t'.revoked = true

def TokensKept (v v' : Tables P) : Prop := ∀ t ∈ v.tokens, ∃ t' ∈ v'.tokens, SameToken t t'

theorem sameToken_refl (t : ServiceToken) : SameToken t t := ⟨rfl, fun h => h⟩

theorem tokensKept_of_eq (h : v'.tokens = v.tokens) : TokensKept v v' := by
  intro t ht
  exact ⟨t, h ▸ ht, sameToken_refl t⟩

theorem TokensKept.trans {v'' : Tables P} (h : TokensKept v v') (h' : TokensKept v' v'') :
    TokensKept v v'' := by
  intro t ht
  obtain ⟨t', ht', hsame⟩ := h t ht
  obtain ⟨t'', ht'', hsame'⟩ := h' t' ht'
  refine ⟨t'', ht'', ?_, fun hrev => hsame'.revoked (hsame.revoked hrev)⟩
  rw [hsame'.same, hsame.same]

/-- An operation from sound tables leads to sound tables with the same tokens. -/
structure Steady (host : Host P) (v v' : Tables P) : Prop where
  sound : Sound host v'
  tokens : TokensKept v v'

theorem steady_refl (h : Sound host v) : Steady host v v := ⟨h, tokensKept_of_eq rfl⟩

theorem Steady.trans {v'' : Tables P} (h : Steady host v v') (h' : Steady host v' v'') :
    Steady host v v'' := ⟨h'.sound, h.tokens.trans h'.tokens⟩

theorem sound_empty : Sound host (Tables.empty : Tables P) := by
  have hempty : Stored host ([] : List (VaultCalls.Proc P)) Tables.empty := stored_empty
  exact ⟨hempty.directory, fun _ h => absurd h not_mem_nil, nodup_nil,
    fun _ h => absurd h not_mem_nil⟩

theorem steady_extends (h : Sound host v) (hext : Extends host v v') : Steady host v v' where
  sound := {
    directory := hext.ok
    housed := fun s hs => by
      obtain ⟨e, he, hid⟩ := h.housed s (by rwa [hext.grows.secrets] at hs)
      exact ⟨e, hext.grows.mem_environments he, hid⟩
    tokenIds := by
      rw [hext.grows.tokens]
      exact h.tokenIds
    tokenFresh := fun t ht => by
      have hlt := h.tokenFresh t (by rwa [hext.grows.tokens] at ht)
      have hle := hext.grows.nextId
      omega }
  tokens := tokensKept_of_eq hext.grows.tokens

theorem directory_later (h : DirectoryOk host v) (hnamespaces : v'.namespaces = v.namespaces)
    (henvironments : v'.environments = v.environments) (hnext : v.nextId ≤ v'.nextId) :
    DirectoryOk host v' where
  namespaceIds := by rw [hnamespaces]; exact h.namespaceIds
  namespaceFresh n hn := by
    have hlt := h.namespaceFresh n (by rwa [hnamespaces] at hn)
    omega
  slugs := by rw [hnamespaces]; exact h.slugs
  environmentIds := by rw [henvironments]; exact h.environmentIds
  environmentFresh e he := by
    have hlt := h.environmentFresh e (by rwa [henvironments] at he)
    omega
  names := by rw [henvironments]; exact h.names

theorem steady_plain (h : Sound host v) (hnamespaces : v'.namespaces = v.namespaces)
    (henvironments : v'.environments = v.environments) (htokens : v'.tokens = v.tokens)
    (hnext : v.nextId ≤ v'.nextId) (hhoused : ∀ s ∈ v'.secrets, Housed v s) :
    Steady host v v' where
  sound := {
    directory := directory_later h.directory hnamespaces henvironments hnext
    housed := fun s hs => by
      obtain ⟨e, he, hid⟩ := hhoused s hs
      exact ⟨e, henvironments ▸ he, hid⟩
    tokenIds := by
      rw [htokens]
      exact h.tokenIds
    tokenFresh := fun t ht => by
      have hlt := h.tokenFresh t (by rwa [htokens] at ht)
      omega }
  tokens := tokensKept_of_eq htokens

/-! ## Calls on secrets -/

/-- What the stage of a call says about the directory. -/
def StageOk (v : Tables P) : Stage P → Prop
  | .resolved r => Resolves v r
  | .built s _ => Housed v s
  | _ => True

theorem insertSecret_steady {s : Secret} {r : SecretVersion P} (h : Sound host v)
    (hhoused : Housed v s) (hinsert : insertSecret v s r = .ok v') : Steady host v v' := by
  unfold insertSecret at hinsert
  split at hinsert
  · cases hinsert
  cases hinsert
  refine steady_plain h rfl rfl rfl (le_refl _) fun t ht => ?_
  rcases mem_append.mp ht with ht | ht
  · exact h.housed t ht
  · rwa [mem_singleton.mp ht]

variable {id : Nat}

theorem updateSecretRow_steady {change : Secret → Secret} (h : Sound host v)
    (hmodest : Modest change) (hupdate : updateSecretRow v id change = .ok v') :
    Steady host v v' := by
  obtain ⟨_, rfl⟩ := updateSecretRow_ok hupdate
  refine steady_plain h rfl rfl rfl (le_refl _) fun t ht => ?_
  obtain ⟨s, hs, rfl⟩ := mem_map.mp ht
  obtain ⟨_, _, _, henv⟩ := changedAt_modest hmodest id s
  obtain ⟨e, he, hid⟩ := h.housed s hs
  exact ⟨e, he, hid.trans henv.symm⟩

theorem insertVersion_steady {r : SecretVersion P} (h : Sound host v)
    (hinsert : insertVersion v id r = .ok v') : Steady host v v' := by
  unfold insertVersion at hinsert
  split at hinsert
  · cases hinsert
  have hadded : Steady host v { v with versions := v.versions ++ [r] } :=
    steady_plain h rfl rfl rfl (le_refl _) h.housed
  have hmodest : Modest fun s => { s with currentVersion := r.version } :=
    fun _ => ⟨rfl, rfl, rfl, rfl⟩
  exact hadded.trans (updateSecretRow_steady hadded.sound hmodest hinsert)

/-- One access of a call. -/
structure Accesses (host : Host P) (v v' : Tables P) (stage' : Stage P) : Prop where
  steady : Steady host v v'
  stage : StageOk v' stage'

theorem accesses_same {stage' : Stage P} (h : Sound host v) (hstage : StageOk v stage') :
    Accesses host v v stage' := ⟨steady_refl h, hstage⟩

variable {scope : Scope} {result : Except Refusal (Tables P)} {w : Tables P}

section Access

variable {i : Nat} {stage stage' : Stage P}

theorem accesses_written (after : Stage P) (h : Sound host v) (hafter : ∀ w, StageOk w after)
    (hsteady : result = .ok v' → Steady host v v')
    (hwritten : VaultCalls.written v result after = (v', stage')) : Accesses host v v' stage' := by
  rcases written_cases hwritten with ⟨hok, rfl⟩ | ⟨refusal, rfl, rfl⟩
  · exact ⟨hsteady hok, hafter v'⟩
  · exact accesses_same h trivial

section

variable (h : Sound host v)
include h

theorem resolving_accesses {result : Except Refusal ResolvedScope}
    (hscope : resolveScope host v scope false true = (w, result)) :
    Steady host v w ∧ ∀ r, result = .ok r → Resolves w r := by
  obtain ⟨hext, hresolved⟩ := resolveScope_ok h.directory scope false true
  rw [hscope] at hext hresolved
  exact ⟨steady_extends h hext, fun r hr => (hresolved r hr).1⟩

theorem createSecret_accesses {key value : String} (hstage : StageOk v stage)
    (hstep : VaultCalls.createSecret host v i scope key value stage = some (v', stage')) :
    Accesses host v v' stage' := by
  cases stage with
  | start =>
    simp only [VaultCalls.createSecret] at hstep
    split at hstep
    · cases hstep
      exact accesses_same h trivial
    split at hstep
    case h_1 w refusal hscope =>
      cases hstep
      exact ⟨(resolving_accesses h hscope).1, trivial⟩
    case h_2 w r hscope =>
      cases hstep
      exact ⟨(resolving_accesses h hscope).1, (resolving_accesses h hscope).2 r rfl⟩
  | resolved r =>
    obtain ⟨e, he, hstep⟩ := map_eq_some_iff.mp hstep
    split at hstep
    · cases hstep
      exact accesses_same h trivial
    · cases hstep
      have hin : Resolves v r := hstage
      exact accesses_same h ⟨e, (hin.environmentIn e he).1, rfl⟩
  | built s r =>
    exact accesses_written .committed h (fun _ => trivial)
      (fun hok => insertSecret_steady h hstage hok) (some.inj hstep)
  | _ => cases hstep

theorem updateSecret_accesses {key : Option String} {confirmed : Bool}
    (hstep : VaultCalls.updateSecret host v id key confirmed stage = some (v', stage')) :
    Accesses host v v' stage' := by
  cases stage with
  | start =>
    simp only [VaultCalls.updateSecret] at hstep
    split at hstep
    · cases hstep
      exact accesses_same h trivial
    split at hstep
    · cases hstep
      exact accesses_same h trivial
    split at hstep
    · cases hstep
      exact accesses_same h trivial
    split at hstep
    · cases hstep
      exact accesses_same h trivial
    split at hstep <;> cases hstep <;> exact accesses_same h trivial
  | found s =>
    simp only [VaultCalls.updateSecret] at hstep
    split at hstep
    · split at hstep <;> cases hstep <;> exact accesses_same h trivial
    · cases hstep
      exact accesses_same h trivial
  | cleared =>
    have hmodest : Modest fun s => { s with key := host.trim (key.getD "") } :=
      fun _ => ⟨rfl, rfl, rfl, rfl⟩
    exact accesses_written .finished h (fun _ => trivial)
      (fun hok => updateSecretRow_steady h hmodest hok) (some.inj hstep)
  | _ => cases hstep

theorem rotateSecret_accesses {value : String}
    (hstep : VaultCalls.rotateSecret host v i id value stage = some (v', stage')) :
    Accesses host v v' stage' := by
  cases stage with
  | start =>
    simp only [VaultCalls.rotateSecret] at hstep
    split at hstep
    · cases hstep
      exact accesses_same h trivial
    case h_2 s hrow =>
      cases hstep
      obtain ⟨e, he, hid⟩ := h.housed s (getSecretRow_some hrow).1
      exact accesses_same h ⟨e, he, hid⟩
  | built s r =>
    exact accesses_written .committed h (fun _ => trivial)
      (fun hok => insertVersion_steady h hok) (some.inj hstep)
  | _ => cases hstep

theorem revokeSecret_accesses (hstep : VaultCalls.revokeSecret v id stage = some (v', stage')) :
    Accesses host v v' stage' := by
  have hmodest : Modest fun s => { s with revoked := true } := fun _ => ⟨rfl, rfl, rfl, rfl⟩
  cases stage with
  | start =>
    simp only [VaultCalls.revokeSecret] at hstep
    split at hstep <;> cases hstep <;> exact accesses_same h trivial
  | found s =>
    exact accesses_written .finished h (fun _ => trivial)
      (fun hok => updateSecretRow_steady h hmodest hok) (some.inj hstep)
  | _ => cases hstep

theorem deleteSecret_accesses (hstep : VaultCalls.deleteSecret v id stage = some (v', stage')) :
    Accesses host v v' stage' := by
  have hmodest : Modest fun s => { s with revoked := true } := fun _ => ⟨rfl, rfl, rfl, rfl⟩
  cases stage with
  | start =>
    simp only [VaultCalls.deleteSecret] at hstep
    split at hstep <;> cases hstep <;> exact accesses_same h trivial
  | found s =>
    exact accesses_written .marked h (fun _ => trivial)
      (fun hok => updateSecretRow_steady h hmodest hok) (some.inj hstep)
  | marked | unlisted =>
    cases hstep
    exact ⟨steady_plain h rfl rfl rfl (le_refl _) h.housed, trivial⟩
  | unversioned =>
    cases hstep
    refine ⟨steady_plain h rfl rfl rfl (le_refl _) fun s hs => ?_, trivial⟩
    exact h.housed s (mem_of_mem_filter hs)
  | _ => cases hstep

theorem readRuntimeSecret_accesses {key : String} {token : ServiceToken}
    (hstep : VaultCalls.readRuntimeSecretStep host v key token scope stage = some (v', stage')) :
    Accesses host v v' stage' := by
  cases stage with
  | start =>
    simp only [VaultCalls.readRuntimeSecretStep] at hstep
    split at hstep
    · cases hstep
      exact accesses_same h trivial
    split at hstep
    case h_1 w refusal hscope =>
      cases hstep
      exact ⟨(resolving_accesses h hscope).1, trivial⟩
    case h_2 w r hscope =>
      cases hstep
      exact ⟨(resolving_accesses h hscope).1, (resolving_accesses h hscope).2 r rfl⟩
  | resolved r =>
    obtain ⟨e, _, hstep⟩ := map_eq_some_iff.mp hstep
    split at hstep
    · split at hstep <;> cases hstep <;> exact accesses_same h trivial
    · cases hstep
      exact accesses_same h trivial
  | located r s =>
    simp only [VaultCalls.readRuntimeSecretStep] at hstep
    split at hstep <;> cases hstep <;> exact accesses_same h trivial
  | hydrated s =>
    simp only [VaultCalls.readRuntimeSecretStep] at hstep
    split at hstep
    · cases hstep
      exact accesses_same h trivial
    split at hstep <;> cases hstep <;> exact accesses_same h trivial
  | _ => cases hstep

theorem stageStep_accesses {call : Call} (hstage : StageOk v stage)
    (hstep : stageStep host v i call stage = some (v', stage')) : Accesses host v v' stage' := by
  cases call with
  | createSecret scope key value => exact createSecret_accesses h hstage hstep
  | updateSecret id key confirmed => exact updateSecret_accesses h hstep
  | rotateSecret id value => exact rotateSecret_accesses h hstep
  | revokeSecret id => exact revokeSecret_accesses h hstep
  | deleteSecret id => exact deleteSecret_accesses h hstep
  | readRuntimeSecret key token scope => exact readRuntimeSecret_accesses h hstep

end

end Access

theorem complete_steady (i : Nat) (call : Call) : ∀ (fuel : Nat) {v : Tables P} {stage : Stage P},
    Sound host v → StageOk v stage → Steady host v (complete host i call fuel v stage).1
  | 0, _, _, h, _ => steady_refl h
  | fuel + 1, v, stage, h, hstage => by
    unfold complete
    split
    · exact steady_refl h
    case h_2 w stage' hstep =>
      have haccess := stageStep_accesses h hstage hstep
      exact haccess.steady.trans (complete_steady i call fuel haccess.steady.sound haccess.stage)

theorem runCall_steady (h : Sound host v) (call : Call) :
    Steady host v (runCall host v call).1 := by
  have hrun : Steady host v (complete host v.nextId call 5 v .start).1 :=
    complete_steady v.nextId call 5 h trivial
  refine hrun.trans (steady_plain hrun.sound rfl rfl rfl (le_succ _) ?_)
  exact hrun.sound.housed

/-! ## Namespaces and environments -/

theorem bind_ok {α β : Type} {x : Except Refusal α} {f : α → Except Refusal β} {b : β}
    (h : (x >>= f) = .ok b) : ∃ a, x = .ok a ∧ f a = .ok b := by
  cases x with
  | error e => cases h
  | ok a => exact ⟨a, rfl, h⟩

theorem map_ids {α : Type} {f : α → Nat} {l : List α} {change : α → α}
    (hchange : ∀ a, f (change a) = f a) (id : Nat) :
    (l.map fun a => if f a = id then change a else a).map f = l.map f := by
  rw [List.map_map]
  apply map_congr_left
  intro a _
  show f (if f a = id then change a else a) = f a
  split
  · exact hchange a
  · rfl

theorem mem_changed {α : Type} (f : α → Nat) (change : α → α) {l : List α} {b : α}
    (hb : b ∈ l.map fun a => if f a = id then change a else a) : ∃ a ∈ l, b = a ∨ b = change a := by
  obtain ⟨a, ha, rfl⟩ := mem_map.mp hb
  split
  · exact ⟨a, ha, .inr rfl⟩
  · exact ⟨a, ha, .inl rfl⟩

theorem updateNamespaceRow_steady {change : Namespace → Namespace} (h : Sound host v)
    (hid : ∀ n, (change n).id = n.id)
    (hslug : ∀ n ∈ v.namespaces, normalizeSlug host (change n).slug = (change n).slug)
    (hupdate : updateNamespaceRow v id change = .ok v') : Steady host v v' := by
  obtain ⟨existing, _, hupdate⟩ := bind_ok hupdate
  dsimp only at hupdate
  split at hupdate
  · cases hupdate
  cases hupdate
  refine ⟨⟨{ h.directory with
      namespaceIds := ?_
      namespaceFresh := ?_
      slugs := ?_ }, h.housed, h.tokenIds, h.tokenFresh⟩, tokensKept_of_eq rfl⟩
  · rw [map_ids hid id]
    exact h.directory.namespaceIds
  · intro n hn
    obtain ⟨m, hm, rfl | rfl⟩ := mem_changed Namespace.id change hn
    · exact h.directory.namespaceFresh n hm
    · rw [hid m]
      exact h.directory.namespaceFresh m hm
  · intro n hn
    obtain ⟨m, hm, rfl | rfl⟩ := mem_changed Namespace.id change hn
    · exact h.directory.slugs n hm
    · exact hslug m hm

theorem renamedSlug_ok {existing : Namespace} {text slug : String}
    (h : renamedSlug host v existing text = .ok slug) : slug = normalizeSlug host text := by
  unfold renamedSlug at h
  dsimp only at h
  split at h
  · cases h
  split at h
  · split at h
    · cases h
    · cases h
      rfl
  · cases h
    rfl

theorem updateNamespace_steady {slug label : Option String} (h : Sound host v)
    (hupdate : updateNamespace host v id slug label = .ok v') : Steady host v v' := by
  obtain ⟨existing, _, hupdate⟩ := bind_ok hupdate
  obtain ⟨renamed, hrenamed, hupdate⟩ := bind_ok hupdate
  have hid : ∀ n, (renamedNamespace host renamed label n).id = n.id := fun _ => rfl
  refine updateNamespaceRow_steady h hid (fun n hn => ?_) hupdate
  cases slug with
  | none =>
    cases hrenamed
    exact h.directory.slugs n hn
  | some text =>
    obtain ⟨slug, hslug, hrenamed⟩ := bind_ok hrenamed
    cases hrenamed
    rw [renamedSlug_ok hslug]
    exact normalizeSlug_idem text

theorem updateEnvironmentRow_steady {name : String} (h : Sound host v)
    (hname : normalizeName host name = name)
    (hupdate : updateEnvironmentRow v id (renamedEnvironment name) = .ok v') :
    Steady host v v' := by
  have hkept : ∀ e, (renamedEnvironment name e).id = e.id := fun _ => rfl
  obtain ⟨existing, _, hupdate⟩ := bind_ok hupdate
  dsimp only at hupdate
  split at hupdate
  · cases hupdate
  cases hupdate
  refine ⟨⟨{ h.directory with environmentIds := ?_, environmentFresh := ?_, names := ?_ },
    ?_, h.tokenIds, h.tokenFresh⟩, tokensKept_of_eq rfl⟩
  · rw [map_ids hkept id]
    exact h.directory.environmentIds
  · intro e he
    obtain ⟨f, hf, rfl | rfl⟩ := mem_changed Environment.id (renamedEnvironment name) he
    · exact h.directory.environmentFresh e hf
    · exact h.directory.environmentFresh f hf
  · intro e he
    obtain ⟨f, hf, rfl | rfl⟩ := mem_changed Environment.id (renamedEnvironment name) he
    · exact h.directory.names e hf
    · exact hname
  · intro s hs
    obtain ⟨e, he, hid⟩ := h.housed s hs
    refine ⟨_, mem_map_of_mem he, ?_⟩
    split
    · exact hid
    · exact hid

variable {name : Option String}

theorem updateEnvironment_steady (h : Sound host v)
    (hupdate : updateEnvironment host v id name = .ok v') : Steady host v v' := by
  obtain ⟨existing, _, hupdate⟩ := bind_ok hupdate
  cases name with
  | none =>
    cases hupdate
    exact steady_refl h
  | some text =>
    dsimp only at hupdate
    split at hupdate
    · cases hupdate
    split at hupdate
    · split at hupdate
      · cases hupdate
      · exact updateEnvironmentRow_steady h (host.trim_trim text) hupdate
    · exact updateEnvironmentRow_steady h (host.trim_trim text) hupdate

theorem createEnvironment_steady (h : Sound host v) (tenantId : Option String)
    (namespaceId : Option Nat) (namespaceName : Option String) (name : String) :
    Steady host v (createEnvironment host v tenantId namespaceId namespaceName name).1 := by
  unfold createEnvironment
  split
  · exact steady_refl h
  split
  · split
    · exact steady_refl h
    case h_2 w n hensure =>
      have hext := (ensureNamespace_ok h.directory hensure).1
      have hsteady := steady_extends h hext
      split
      · exact hsteady
      case h_2 w' e hadd =>
        exact hsteady.trans (steady_extends hsteady.sound (addEnvironment_ok hext.ok hadd).1)
  · split
    · exact steady_refl h
    case h_2 w e hadd => exact steady_extends h (addEnvironment_ok h.directory hadd).1

/-! ## Sets and tokens -/

section

variable (h : Sound host v)
include h

theorem createSecretSet_steady (scope : Scope) (name : String)
    (members : List (Nat × Option String)) :
    Steady host v (createSecretSet host v scope name members).1 := by
  unfold createSecretSet
  split
  · exact steady_refl h
  obtain ⟨hext, _⟩ := resolveScope_ok h.directory scope
    (truthy scope.environment = none ∧ scope.environmentId = none) false
  split
  case h_1 w refusal hscope =>
    rw [hscope] at hext
    exact steady_extends h hext
  case h_2 w r hscope =>
    rw [hscope] at hext
    have hsteady := steady_extends h hext
    dsimp only
    split
    · exact hsteady
    split
    · exact hsteady
    case h_2 rows _ =>
      refine hsteady.trans (steady_plain hsteady.sound rfl rfl rfl ?_ hsteady.sound.housed)
      show w.nextId ≤ w.nextId + 1 + rows.length
      omega

theorem updateSecretSet_steady (hupdate : updateSecretSet host v id name = .ok v') :
    Steady host v v' := by
  obtain ⟨existing, _, hupdate⟩ := bind_ok hupdate
  split at hupdate
  · cases hupdate
    exact steady_refl h
  split at hupdate
  · cases hupdate
  split at hupdate
  · cases hupdate
    exact steady_refl h
  split at hupdate
  · split at hupdate
    · cases hupdate
    · cases hupdate
      exact steady_plain h rfl rfl rfl (le_refl _) h.housed
  · cases hupdate
    exact steady_plain h rfl rfl rfl (le_refl _) h.housed

theorem addSecretSetMember_steady {setId secretId : Nat}
    (hadd : addSecretSetMember host v setId secretId name = .ok v') : Steady host v v' := by
  obtain ⟨set, _, hadd⟩ := bind_ok hadd
  obtain ⟨s, _, hadd⟩ := bind_ok hadd
  split at hadd
  · cases hadd
  · obtain ⟨_, _, hadd⟩ := bind_ok hadd
    obtain ⟨_, _, hadd⟩ := bind_ok hadd
    cases hadd
    exact steady_plain h rfl rfl rfl (le_succ _) h.housed

theorem updateSecretSetMember_steady {secretId : Option Nat} {name : Option (Option String)}
    (hupdate : updateSecretSetMember host v id secretId name = .ok v') : Steady host v v' := by
  obtain ⟨existing, _, hupdate⟩ := bind_ok hupdate
  obtain ⟨set, _, hupdate⟩ := bind_ok hupdate
  obtain ⟨s, _, hupdate⟩ := bind_ok hupdate
  split at hupdate
  · cases hupdate
  obtain ⟨_, _, hupdate⟩ := bind_ok hupdate
  split at hupdate
  · cases hupdate
    exact steady_refl h
  · obtain ⟨_, _, hupdate⟩ := bind_ok hupdate
    cases hupdate
    exact steady_plain h rfl rfl rfl (le_refl _) h.housed

end

variable {expiresAt : Option String} {record : ServiceToken} {scopes : List String} {raw : String}

theorem createServiceToken_ok
    (hcreate : createServiceToken host v scope raw scopes expiresAt = .ok (v', record)) :
    v' = { v with tokens := v.tokens ++ [record], nextId := v.nextId + 1 } ∧
      record.id = v.nextId := by
  obtain ⟨records, _, hcreate⟩ := bind_ok hcreate
  dsimp only at hcreate
  split at hcreate
  · cases hcreate
  · cases hcreate
    exact ⟨rfl, rfl⟩

theorem createServiceToken_steady (h : Sound host v)
    (hcreate : createServiceToken host v scope raw scopes expiresAt = .ok (v', record)) :
    Steady host v v' := by
  obtain ⟨rfl, hid⟩ := createServiceToken_ok hcreate
  refine ⟨⟨directory_later h.directory rfl rfl (le_succ _), h.housed,
    nodup_append_fresh h.tokenIds h.tokenFresh hid, fun t ht => ?_⟩, fun t ht => ?_⟩
  · show t.id < v.nextId + 1
    rcases mem_append.mp ht with ht | ht
    · have hlt := h.tokenFresh t ht
      omega
    · rw [mem_singleton.mp ht, hid]
      omega
  · exact ⟨t, mem_append_left _ ht, sameToken_refl t⟩

theorem revokeServiceToken_steady (h : Sound host v) (hrevoke : revokeServiceToken v id = .ok v') :
    Steady host v v' := by
  unfold revokeServiceToken at hrevoke
  split at hrevoke
  · cases hrevoke
    have hkept : ∀ t : ServiceToken, ({ t with revoked := true } : ServiceToken).id = t.id :=
      fun _ => rfl
    refine ⟨⟨directory_later h.directory rfl rfl (le_refl _), h.housed, ?_, fun t ht => ?_⟩,
      fun t ht => ?_⟩
    · have hids := h.tokenIds
      rwa [← map_ids hkept id] at hids
    · obtain ⟨t', ht', rfl | rfl⟩ :=
        mem_changed ServiceToken.id (fun t => { t with revoked := true }) ht
      · exact h.tokenFresh t ht'
      · exact h.tokenFresh t' ht'
    · refine ⟨_, mem_map_of_mem ht, ?_⟩
      split
      · exact ⟨rfl, fun _ => rfl⟩
      · exact sameToken_refl t
  · cases hrevoke

theorem resolveRuntimeSet_steady (h : Sound host v) (name : String) (token : ServiceToken)
    (scope : Scope) : Steady host v (resolveRuntimeSet host v name token scope).1 := by
  unfold resolveRuntimeSet
  split
  · exact steady_refl h
  split
  case h_1 w refusal hscope => exact (resolving_accesses h hscope).1
  case h_2 w r hscope =>
    have hsteady := (resolving_accesses h hscope).1
    split
    · exact hsteady
    split <;> exact hsteady

/-! ## Every operation -/

theorem orBefore_steady (h : Sound host v) (hok : ∀ w, result = .ok w → Steady host v w) :
    Steady host v (orBefore v result) := by
  cases result with
  | ok w => exact hok w rfl
  | error e => exact steady_refl h

theorem map_fst_ok {α : Type} {result : Except Refusal (Tables P × α)}
    (h : result.map Prod.fst = .ok w) : ∃ a, result = .ok (w, a) := by
  cases result with
  | error e => cases h
  | ok r =>
    cases h
    exact ⟨r.2, rfl⟩

theorem perform_steady (h : Sound host v) (op : Op) : Steady host v (perform host v op) := by
  cases op with
  | createNamespace tenantId slug label =>
    refine orBefore_steady h fun w hw => ?_
    obtain ⟨n, hn⟩ := map_fst_ok hw
    exact steady_extends h (createNamespace_ok h.directory hn).1
  | updateNamespace id slug label =>
    exact orBefore_steady h fun w hw => updateNamespace_steady h hw
  | createEnvironment tenantId namespaceId namespaceName name =>
    exact createEnvironment_steady h tenantId namespaceId namespaceName name
  | updateEnvironment id name =>
    exact orBefore_steady h fun w hw => updateEnvironment_steady h hw
  | call call => exact runCall_steady h call
  | createSecretSet scope name members => exact createSecretSet_steady h scope name members
  | updateSecretSet id name => exact orBefore_steady h fun w hw => updateSecretSet_steady h hw
  | addSecretSetMember setId secretId name =>
    exact orBefore_steady h fun w hw => addSecretSetMember_steady h hw
  | updateSecretSetMember id secretId name =>
    exact orBefore_steady h fun w hw => updateSecretSetMember_steady h hw
  | removeSecretSetMember id | deleteSecretSet id =>
    refine orBefore_steady h fun w hw => ?_
    obtain ⟨_, _, hw⟩ := bind_ok hw
    cases hw
    exact steady_plain h rfl rfl rfl (le_refl _) h.housed
  | createServiceToken scope raw scopes expiresAt =>
    refine orBefore_steady h fun w hw => ?_
    obtain ⟨record, hrecord⟩ := map_fst_ok hw
    exact createServiceToken_steady h hrecord
  | revokeServiceToken id => exact orBefore_steady h fun w hw => revokeServiceToken_steady h hw
  | resolveRuntimeSet name token scope => exact resolveRuntimeSet_steady h name token scope

theorem performAll_steady (ops : List Op) : ∀ {v : Tables P}, Sound host v →
    Steady host v (performAll host v ops) := by
  induction ops with
  | nil => exact fun h => steady_refl h
  | cons op ops ih =>
    intro v h
    have hstep := perform_steady h op
    exact hstep.trans (ih hstep.sound)

end SuperFunctions.Secfn.ServiceRuns
