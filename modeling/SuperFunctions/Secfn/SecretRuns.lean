import SuperFunctions.Secfn.StoredSecrets

/-!
# Runs of calls on secrets

What each access leaves to the calls that run beside it, and the invariant of every run.
-/
namespace SuperFunctions.Secfn.SecretRuns

open Lib.Processes Lib.Transition Vault VaultScopes VaultCalls StoredSecrets List Option

variable {P : Type} {host : Host P} {v v' : Tables P} {procs procs' : List (Proc P)}

/-! ## What other calls see -/

/-- An access of the call `i`: the directory grows, a row other than that of the secret `i` was
there before in the same place, and a revoked row stays revoked. -/
structure Kept (v v' : Tables P) (i : Nat) : Prop where
  namespaces : ∀ n ∈ v.namespaces, n ∈ v'.namespaces
  environments : ∀ e ∈ v.environments, e ∈ v'.environments
  rows : ∀ t ∈ v'.secrets, t.id = i ∨ ∃ s ∈ v.secrets, s.id = t.id ∧ s.tenantId = t.tenantId ∧
    s.namespaceId = t.namespaceId ∧ (s.revoked = true → t.revoked = true)

theorem kept_refl (v : Tables P) (i : Nat) : Kept v v i :=
  ⟨fun _ => id, fun _ => id, fun t ht => .inr ⟨t, ht, rfl, rfl, rfl, fun h => h⟩⟩

variable {i : Nat}

theorem kept_extends (h : Extends host v v') : Kept v v' i where
  namespaces _ hn := h.grows.mem_namespaces hn
  environments _ he := h.grows.mem_environments he
  rows t ht := by
    rw [h.grows.secrets] at ht
    exact .inr ⟨t, ht, rfl, rfl, rfl, fun h => h⟩

variable {s : Secret} {r : SecretVersion P}

theorem kept_insert (h : insertSecret v s r = .ok v') : Kept v v' s.id := by
  unfold insertSecret at h
  split at h
  · cases h
  cases h
  refine ⟨fun _ => id, fun _ => id, fun t ht => ?_⟩
  rcases mem_append.mp ht with ht | ht
  · exact .inr ⟨t, ht, rfl, rfl, rfl, fun h => h⟩
  · rw [mem_singleton.mp ht]
    exact .inl rfl

variable {id : Nat}

theorem kept_changed {change : Secret → Secret} (hmodest : Modest change)
    (hrevoked : ∀ s, s.revoked = true → (change s).revoked = true)
    (h : updateSecretRow v id change = .ok v') : Kept v v' i := by
  obtain ⟨_, rfl⟩ := updateSecretRow_ok h
  refine ⟨fun _ h => h, fun _ h => h, fun t ht => ?_⟩
  obtain ⟨s, hs, rfl⟩ := mem_map.mp ht
  obtain ⟨hid, htenant, hns, _⟩ := changedAt_modest hmodest id s
  refine .inr ⟨s, hs, hid.symm, htenant.symm, hns.symm, fun hrev => ?_⟩
  unfold changedAt
  split
  · exact hrevoked s hrev
  · exact hrev

theorem kept_rotate (h : insertVersion v id r = .ok v') : Kept v v' i := by
  unfold insertVersion at h
  split at h
  · cases h
  · have hmodest : Modest fun s => { s with currentVersion := r.version } :=
      fun _ => ⟨rfl, rfl, rfl, rfl⟩
    have hkept := kept_changed (i := i) hmodest (fun _ hrev => hrev) h
    exact { hkept with }

theorem kept_deleteSecretRow (v : Tables P) (id i : Nat) : Kept v (deleteSecretRow v id) i :=
  ⟨fun _ h => h, fun _ h => h,
    fun t ht => .inr ⟨t, mem_of_mem_filter ht, rfl, rfl, rfl, fun h => h⟩⟩

theorem resolves_kept {r : ResolvedScope} (h : Resolves v r) (hkept : Kept v v' i) :
    Resolves v' r := { h with
  namespaceIn := hkept.namespaces _ h.namespaceIn
  environmentIn e he := by
    obtain ⟨hin, hrest⟩ := h.environmentIn e he
    exact ⟨hkept.environments e hin, hrest⟩ }

theorem placed_kept (h : Placed v s) (hkept : Kept v v' i) : Placed v' s where
  «namespace» := by
    obtain ⟨n, hn, hrest⟩ := h.«namespace»
    exact ⟨n, hkept.namespaces n hn, hrest⟩
  environment := by
    obtain ⟨e, he, hrest⟩ := h.environment
    exact ⟨e, hkept.environments e he, hrest⟩

/-! ## What a call knows -/

/-- The secret that a call takes out of use. -/
def kills : Call → Option Nat
  | .revokeSecret id => some id
  | .deleteSecret id => some id
  | _ => none

/-- The secret was created, and where its row remains, it is revoked. -/
structure Gone (v : Tables P) (procs : List (Proc P)) (id : Nat) : Prop where
  created : CreatedBy procs id
  revoked : ∀ t ∈ v.secrets, t.id = id → t.revoked = true

theorem gone_kept (h : Gone v procs id) (hkept : Kept v v' i) (hkeep : Keeps procs procs')
    (hnew : ¬CreatedBy procs i) : Gone v' procs' id where
  created := createdBy_keeps h.created hkeep
  revoked t ht hid := by
    rcases hkept.rows t ht with hown | ⟨s, hs, hsid, _, _, hrev⟩
    · exact absurd (hown ▸ hid ▸ h.created) hnew
    · exact hrev (h.revoked s hs (hsid.trans hid))

/-- What the stage of a call says about the store. -/
def Local (host : Host P) (v : Tables P) (procs : List (Proc P)) (i : Nat) (p : Proc P) : Prop :=
  match p.stage with
  | .resolved r => Resolves v r
  | .built s r =>
    match p.call with
    | .createSecret _ _ value => s.id = i ∧ Placed v s ∧ r = createVersion host i s value
    | .rotateSecret id value =>
      s.id = id ∧ CreatedBy procs id ∧ r = createVersion host i s value ∧
        ∀ t ∈ v.secrets, t.id = id → t.tenantId = s.tenantId ∧ t.namespaceId = s.namespaceId
    | _ => False
  | .found _ => ∀ id, kills p.call = some id → CreatedBy procs id
  | .marked => ∀ id, kills p.call = some id → Gone v procs id
  | .unlisted => ∀ id, kills p.call = some id → Gone v procs id
  | .unversioned => ∀ id, kills p.call = some id → Gone v procs id
  | .finished => ∀ id, kills p.call = some id → Gone v procs id
  | _ => True

variable {q : Proc P}

theorem local_kept {j : Nat} (h : Local host v procs j q) (hkept : Kept v v' i)
    (hkeep : Keeps procs procs') (hnew : ¬CreatedBy procs i) : Local host v' procs' j q := by
  obtain ⟨call, stage⟩ := q
  have hgone : (∀ id, kills call = some id → Gone v procs id) →
      ∀ id, kills call = some id → Gone v' procs' id :=
    fun hold id hid => gone_kept (hold id hid) hkept hkeep hnew
  cases stage with
  | resolved r => exact resolves_kept h hkept
  | built s r =>
    cases call with
    | createSecret scope key value =>
      obtain ⟨hid, hplaced, hr⟩ := h
      exact ⟨hid, placed_kept hplaced hkept, hr⟩
    | rotateSecret id value =>
      obtain ⟨hid, hcreated, hr, hrows⟩ := h
      refine ⟨hid, createdBy_keeps hcreated hkeep, hr, fun t ht htid => ?_⟩
      rcases hkept.rows t ht with hown | ⟨u, hu, huid, htenant, hns, _⟩
      · exact absurd (hown ▸ htid ▸ hcreated) hnew
      · obtain ⟨htenantRow, hnsRow⟩ := hrows u hu (huid.trans htid)
        exact ⟨htenant ▸ htenantRow, hns ▸ hnsRow⟩
    | updateSecret id key confirmed => exact h
    | revokeSecret id => exact h
    | deleteSecret id => exact h
    | readRuntimeSecret key token scope => exact h
  | found s => exact fun id hid => createdBy_keeps (h id hid) hkeep
  | marked | unlisted | unversioned | finished => exact hgone h
  | start => trivial
  | cleared => trivial
  | committed => trivial
  | located r s => trivial
  | hydrated s => trivial
  | answered id version value => trivial
  | failed refusal => trivial

/-! ## One access -/

variable {p : Proc P}

section

variable (hp : procs[i]? = some p)
include hp

theorem keeps_set (hopen : p.stage ≠ .committed) : Keeps procs (procs.set i q) := by
  intro j call hj
  have hne : i ≠ j := by
    rintro rfl
    rw [hp] at hj
    cases hj
    exact hopen rfl
  rwa [getElem?_set_ne hne]

theorem not_createdBy (hopen : p.stage ≠ .committed) : ¬CreatedBy procs i := by
  rintro ⟨scope, key, value, hcall⟩
  rw [hp] at hcall
  cases hcall
  exact hopen rfl

theorem unversioned_set (hother : p.stage ≠ .unversioned) (h : Unversioned procs id) :
    Unversioned (procs.set i q) id := by
  obtain ⟨j, hj⟩ := h
  have hne : i ≠ j := by
    rintro rfl
    rw [hp] at hj
    cases hj
    exact hother rfl
  refine ⟨j, ?_⟩
  rwa [getElem?_set_ne hne]

end

theorem getElem?_moved (q : Proc P) (hp : procs[i]? = some p) : (procs.set i q)[i]? = some q :=
  List.getElem?_set_self (List.getElem?_eq_some_iff.mp hp).1

theorem stored_moved (h : Stored host procs v) (hp : procs[i]? = some p)
    (hopen : p.stage ≠ .committed) (hother : p.stage ≠ .unversioned) (q : Proc P) :
    Stored host (procs.set i q) v :=
  stored_keeps h (keeps_set hp hopen) fun _ _ => unversioned_set hp hother

/-- What an access of the call `i` does: it keeps what is stored, and what it leaves to itself
and to the others. -/
structure Advances (host : Host P) (procs : List (Proc P)) (v v' : Tables P) (i : Nat)
    (q : Proc P) : Prop where
  stored : Stored host (procs.set i q) v'
  own : Local host v' (procs.set i q) i q
  kept : Kept v v' i

theorem written_cases {result : Except Refusal (Tables P)} {stage stage' : Stage P}
    (h : written v result stage = (v', stage')) :
    (result = .ok v' ∧ stage' = stage) ∨ ∃ refusal, v' = v ∧ stage' = .failed refusal := by
  cases result with
  | ok w =>
    cases h
    exact .inl ⟨rfl, rfl⟩
  | error refusal =>
    cases h
    exact .inr ⟨refusal, rfl, rfl⟩

variable {call : Call}

section Access

variable {i : Nat} {stage stage' : Stage P} {scope : Scope}

section

variable (h : Stored host procs v)
include h

theorem resolving_advances (hp : procs[i]? = some ⟨call, .start⟩)
    (hlocal : ∀ w ps r, Resolves w r → Local host w ps i ⟨call, .resolved r⟩)
    (hstep : (match resolveScope host v scope false true with
      | (w, .error refusal) => some (w, .failed refusal)
      | (w, .ok r) => some (w, .resolved r)) = some (v', stage')) :
    Advances host procs v v' i ⟨call, stage'⟩ := by
  have hmoved := stored_moved h hp (by nofun) (by nofun)
  obtain ⟨hext, hresolved⟩ := resolveScope_ok h.directory scope false true
  split at hstep
  all_goals
    rename_i hscope
    cases hstep
    rw [hscope] at hext hresolved
  · exact ⟨stored_extends (hmoved _) hext, trivial, kept_extends hext⟩
  · exact ⟨stored_extends (hmoved _) hext, hlocal _ _ _ (hresolved _ rfl).1, kept_extends hext⟩

theorem createSecret_advances {key value : String}
    (hp : procs[i]? = some ⟨.createSecret scope key value, stage⟩)
    (hlocal : Local host v procs i ⟨.createSecret scope key value, stage⟩)
    (hstep : createSecret host v i scope key value stage = some (v', stage')) :
    Advances host procs v v' i ⟨.createSecret scope key value, stage'⟩ := by
  cases stage with
  | start =>
    simp only [createSecret] at hstep
    split at hstep
    · cases hstep
      exact ⟨stored_moved h hp (by nofun) (by nofun) _, trivial, kept_refl v i⟩
    · exact resolving_advances h hp (fun _ _ _ => id) hstep
  | resolved r =>
    have hmoved := stored_moved h hp (by nofun) (by nofun)
    obtain ⟨e, he, hstep⟩ := map_eq_some_iff.mp hstep
    split at hstep
    · cases hstep
      exact ⟨hmoved _, trivial, kept_refl _ i⟩
    cases hstep
    have hin : Resolves v r := hlocal
    obtain ⟨hine, htenant, hparent⟩ := hin.environmentIn e he
    have hplaced : Placed v (newSecret i r e key) :=
      ⟨⟨_, hin.namespaceIn, rfl, hin.namespaceTenant⟩, ⟨e, hine, rfl, htenant, hparent⟩⟩
    exact ⟨hmoved _, ⟨rfl, hplaced, rfl⟩, kept_refl _ i⟩
  | built s r =>
    have hmoved := stored_moved h hp (by nofun) (by nofun)
    obtain ⟨rfl, hplaced, rfl⟩ := hlocal
    rcases written_cases (some.inj hstep) with ⟨hinsert, rfl⟩ | ⟨refusal, rfl, rfl⟩
    · have hfresh : ¬CreatedBy procs s.id := not_createdBy hp (by nofun)
      refine ⟨?_, trivial, kept_insert hinsert⟩
      apply stored_insert (hmoved _) (getElem?_moved _ hp) hplaced ?_ ?_ hinsert
      · intro t ht hid
        exact hfresh (hid ▸ h.created t ht)
      · intro r hr hid
        exact hfresh (hid ▸ (h.sealed r hr).created)
    · exact ⟨hmoved _, trivial, kept_refl _ _⟩
  | _ => cases hstep

theorem updateSecret_advances {key : Option String} {confirmed : Bool}
    (hp : procs[i]? = some ⟨.updateSecret id key confirmed, stage⟩)
    (hstep : updateSecret host v id key confirmed stage = some (v', stage')) :
    Advances host procs v v' i ⟨.updateSecret id key confirmed, stage'⟩ := by
  cases stage with
  | start =>
    have hmoved := stored_moved h hp (by nofun) (by nofun)
    simp only [updateSecret] at hstep
    split at hstep
    · cases hstep
      exact ⟨hmoved _, trivial, kept_refl v i⟩
    split at hstep
    · cases hstep
      exact ⟨hmoved _, nofun, kept_refl v i⟩
    split at hstep
    · cases hstep
      exact ⟨hmoved _, trivial, kept_refl v i⟩
    split at hstep
    · cases hstep
      exact ⟨hmoved _, nofun, kept_refl v i⟩
    split at hstep
    · cases hstep
      exact ⟨hmoved _, trivial, kept_refl v i⟩
    · cases hstep
      exact ⟨hmoved _, nofun, kept_refl v i⟩
  | found s =>
    have hmoved := stored_moved h hp (by nofun) (by nofun)
    simp only [updateSecret] at hstep
    split at hstep
    · split at hstep <;> cases hstep <;> exact ⟨hmoved _, trivial, kept_refl v i⟩
    · cases hstep
      exact ⟨hmoved _, trivial, kept_refl v i⟩
  | cleared =>
    have hmoved := stored_moved h hp (by nofun) (by nofun)
    rcases written_cases (some.inj hstep) with ⟨hupdate, rfl⟩ | ⟨refusal, rfl, rfl⟩
    · have hmodest : Modest fun s => { s with key := host.trim (key.getD "") } :=
        fun _ => ⟨rfl, rfl, rfl, rfl⟩
      exact ⟨stored_update (hmoved _) hmodest (fun _ => rfl) hupdate, nofun,
        kept_changed hmodest (fun _ hrev => hrev) hupdate⟩
    · exact ⟨hmoved _, trivial, kept_refl _ i⟩
  | _ => cases hstep

theorem rotateSecret_advances {value : String}
    (hp : procs[i]? = some ⟨.rotateSecret id value, stage⟩)
    (hlocal : Local host v procs i ⟨.rotateSecret id value, stage⟩)
    (hstep : rotateSecret host v i id value stage = some (v', stage')) :
    Advances host procs v v' i ⟨.rotateSecret id value, stage'⟩ := by
  cases stage with
  | start =>
    have hmoved := stored_moved h hp (by nofun) (by nofun)
    simp only [rotateSecret] at hstep
    split at hstep
    · cases hstep
      exact ⟨hmoved _, trivial, kept_refl v i⟩
    case h_2 s hrow =>
      cases hstep
      obtain ⟨hs, hid⟩ := getSecretRow_some hrow
      refine ⟨hmoved _, ⟨hid, ?_, rfl, fun t ht htid => ?_⟩, kept_refl v i⟩
      · exact createdBy_keeps (hid ▸ h.created s hs) (keeps_set hp (by nofun))
      · have hsame : t = s := inj_on_of_nodup_map h.ids ht hs (htid.trans hid.symm)
        subst hsame
        exact ⟨rfl, rfl⟩
  | built s r =>
    have hmoved := stored_moved h hp (by nofun) (by nofun)
    obtain ⟨rfl, hcreated, rfl, hrows⟩ := hlocal
    rcases written_cases (some.inj hstep) with ⟨hinsert, rfl⟩ | ⟨refusal, rfl, rfl⟩
    · refine ⟨?_, trivial, kept_rotate hinsert⟩
      apply stored_rotate (hmoved _) rfl ?_ hinsert
      refine ⟨createdBy_keeps hcreated (keeps_set hp (by nofun)), _, value,
        getElem?_moved _ hp, rfl, fun t ht htid => ?_⟩
      obtain ⟨htenant, hns⟩ := hrows t ht htid
      have htid : t.id = s.id := htid
      show host.encryptSecret value (secretAad s s.currentVersion) =
        host.encryptSecret value (secretAad t s.currentVersion)
      rw [secretAad, secretAad, htenant, hns, htid]
    · exact ⟨hmoved _, trivial, kept_refl _ i⟩
  | _ => cases hstep

end

theorem revoke_advances (after : Stage P) (h : Stored host procs v)
    (hp : procs[i]? = some ⟨call, .found s⟩) (hlocal : Local host v procs i ⟨call, .found s⟩)
    (hkills : kills call = some id)
    (hafter : ∀ w ps, (∀ other, kills call = some other → Gone w ps other) →
      Local host w ps i ⟨call, after⟩)
    (hstep : written v (updateSecretRow v id fun s => { s with revoked := true }) after =
      (v', stage')) : Advances host procs v v' i ⟨call, stage'⟩ := by
  have hmoved := stored_moved h hp (by nofun) (by nofun)
  have hlocal : ∀ id, kills call = some id → CreatedBy procs id := hlocal
  rcases written_cases hstep with ⟨hupdate, rfl⟩ | ⟨refusal, rfl, rfl⟩
  · have hmodest : Modest fun s => { s with revoked := true } := fun _ => ⟨rfl, rfl, rfl, rfl⟩
    refine ⟨stored_update (hmoved _) hmodest (fun _ => rfl) hupdate,
      hafter _ _ fun other hother => ?_, kept_changed hmodest (fun _ _ => rfl) hupdate⟩
    rw [hkills] at hother
    cases hother
    refine ⟨createdBy_keeps (hlocal id hkills) (keeps_set hp (by nofun)), fun t ht htid => ?_⟩
    obtain ⟨_, rfl⟩ := updateSecretRow_ok hupdate
    obtain ⟨u, _, rfl⟩ := mem_map.mp ht
    rw [(changedAt_modest hmodest id u).1] at htid
    rw [changedAt, if_pos htid]
  · exact ⟨hmoved _, trivial, kept_refl _ i⟩

theorem found_created (h : Stored host procs v) (hp : procs[i]? = some ⟨call, .start⟩)
    (hkills : kills call = some id) (hrow : getSecretRow v id = .ok s) :
    Advances host procs v v i ⟨call, .found s⟩ := by
  obtain ⟨hs, hid⟩ := getSecretRow_some hrow
  refine ⟨stored_moved h hp (by nofun) (by nofun) _, fun other hother => ?_, kept_refl v i⟩
  have hother : kills call = some other := hother
  rw [hkills] at hother
  cases hother
  exact createdBy_keeps (hid ▸ h.created s hs) (keeps_set hp (by nofun))

theorem revokeSecret_advances (h : Stored host procs v)
    (hp : procs[i]? = some ⟨.revokeSecret id, stage⟩)
    (hlocal : Local host v procs i ⟨.revokeSecret id, stage⟩)
    (hstep : revokeSecret v id stage = some (v', stage')) :
    Advances host procs v v' i ⟨.revokeSecret id, stage'⟩ := by
  cases stage with
  | start =>
    simp only [revokeSecret] at hstep
    split at hstep
    · cases hstep
      exact ⟨stored_moved h hp (by nofun) (by nofun) _, trivial, kept_refl v i⟩
    case h_2 s hrow =>
      cases hstep
      exact found_created h hp rfl hrow
  | found s =>
    exact revoke_advances .finished h hp hlocal rfl (fun _ _ hgone => hgone) (some.inj hstep)
  | _ => cases hstep

theorem gone_moved (hgone : ∀ other, kills call = some other → Gone v procs other)
    (hp : procs[i]? = some ⟨call, stage⟩) (hopen : stage ≠ .committed) (hkept : Kept v v' i) :
    ∀ other, kills call = some other → Gone v' (procs.set i q) other := by
  intro other hother
  exact gone_kept (hgone other hother) hkept (keeps_set hp hopen) (not_createdBy hp hopen)

theorem deleteSecret_advances (h : Stored host procs v)
    (hp : procs[i]? = some ⟨.deleteSecret id, stage⟩)
    (hlocal : Local host v procs i ⟨.deleteSecret id, stage⟩)
    (hstep : deleteSecret v id stage = some (v', stage')) :
    Advances host procs v v' i ⟨.deleteSecret id, stage'⟩ := by
  cases stage with
  | start =>
    simp only [deleteSecret] at hstep
    split at hstep
    · cases hstep
      exact ⟨stored_moved h hp (by nofun) (by nofun) _, trivial, kept_refl v i⟩
    case h_2 s hrow =>
      cases hstep
      exact found_created h hp rfl hrow
  | found s =>
    exact revoke_advances .marked h hp hlocal rfl (fun _ _ hgone => hgone) (some.inj hstep)
  | marked =>
    cases hstep
    have hkept : Kept v (deleteMembersOf v id) i :=
      ⟨(kept_refl v i).namespaces, (kept_refl v i).environments, (kept_refl v i).rows⟩
    exact ⟨stored_deleteMembersOf (stored_moved h hp (by nofun) (by nofun) _) id,
      gone_moved hlocal hp (by nofun) hkept, hkept⟩
  | unlisted =>
    cases hstep
    have hkept : Kept v (deleteVersionsOf v id) i :=
      ⟨(kept_refl v i).namespaces, (kept_refl v i).environments, (kept_refl v i).rows⟩
    exact ⟨stored_deleteVersionsOf (stored_moved h hp (by nofun) (by nofun) _)
      ⟨i, getElem?_moved _ hp⟩, gone_moved hlocal hp (by nofun) hkept, hkept⟩
  | unversioned =>
    cases hstep
    have hkept := kept_deleteSecretRow v id i
    refine ⟨?_, gone_moved hlocal hp (by nofun) hkept, hkept⟩
    -- without the row nothing stands on this delete any more
    apply stored_keeps (stored_deleteSecretRow h id) (keeps_set hp (by nofun))
    rintro s hs ⟨j, hj⟩
    have hne : i ≠ j := by
      rintro rfl
      rw [hp] at hj
      cases hj
      exact of_decide_eq_true (mem_filter.mp hs).2 rfl
    exact ⟨j, by rwa [getElem?_set_ne hne]⟩
  | _ => cases hstep

theorem readRuntimeSecret_advances {key : String} {token : ServiceToken} (h : Stored host procs v)
    (hp : procs[i]? = some ⟨.readRuntimeSecret key token scope, stage⟩)
    (hstep : readRuntimeSecretStep host v key token scope stage = some (v', stage')) :
    Advances host procs v v' i ⟨.readRuntimeSecret key token scope, stage'⟩ := by
  cases stage with
  | start =>
    simp only [readRuntimeSecretStep] at hstep
    split at hstep
    · cases hstep
      exact ⟨stored_moved h hp (by nofun) (by nofun) _, trivial, kept_refl v i⟩
    · exact resolving_advances h hp (fun _ _ _ => id) hstep
  | resolved r =>
    have hmoved := stored_moved h hp (by nofun) (by nofun)
    obtain ⟨e, _, hstep⟩ := map_eq_some_iff.mp hstep
    split at hstep
    · split at hstep <;> cases hstep <;> exact ⟨hmoved _, trivial, kept_refl _ i⟩
    · cases hstep
      exact ⟨hmoved _, trivial, kept_refl _ i⟩
  | located r s =>
    have hmoved := stored_moved h hp (by nofun) (by nofun)
    simp only [readRuntimeSecretStep] at hstep
    split at hstep <;> cases hstep <;> exact ⟨hmoved _, trivial, kept_refl v i⟩
  | hydrated s =>
    have hmoved := stored_moved h hp (by nofun) (by nofun)
    simp only [readRuntimeSecretStep] at hstep
    split at hstep
    · cases hstep
      exact ⟨hmoved _, trivial, kept_refl v i⟩
    split at hstep <;> cases hstep <;> exact ⟨hmoved _, trivial, kept_refl v i⟩
  | _ => cases hstep

theorem stageStep_advances (h : Stored host procs v) (hp : procs[i]? = some ⟨call, stage⟩)
    (hlocal : Local host v procs i ⟨call, stage⟩)
    (hstep : stageStep host v i call stage = some (v', stage')) :
    Advances host procs v v' i ⟨call, stage'⟩ := by
  cases call with
  | createSecret scope key value => exact createSecret_advances h hp hlocal hstep
  | updateSecret id key confirmed => exact updateSecret_advances h hp hstep
  | rotateSecret id value => exact rotateSecret_advances h hp hlocal hstep
  | revokeSecret id => exact revokeSecret_advances h hp hlocal hstep
  | deleteSecret id => exact deleteSecret_advances h hp hlocal hstep
  | readRuntimeSecret key token scope => exact readRuntimeSecret_advances h hp hstep

end Access

/-! ## Every run -/

structure Consistent (host : Host P) (s : VaultSystem P) : Prop where
  stored : Stored host s.procs s.shared
  locals : Each (fun v i p => Local host v s.procs i p) s

theorem consistent_initial : Consistent host initial := ⟨stored_empty, each_nil _ _⟩

theorem not_createdBy_new : ¬CreatedBy procs procs.length := by
  rintro ⟨scope, key, value, hcall⟩
  rw [getElem?_eq_none le_rfl] at hcall
  cases hcall

theorem keeps_append (p : Proc P) : Keeps procs (procs ++ [p]) := by
  intro j call hj
  rwa [List.getElem?_append_left (List.getElem?_eq_some_iff.mp hj).1]

theorem step_cases {s s' : VaultSystem P} {a : Act Call Unit} (h : step host s a = some s') :
    (∃ call, a = .spawn call ∧ s' = ⟨s.shared, s.procs ++ [init call]⟩) ∨
    ∃ i call stage v' stage', a = .move i () ∧ s.procs[i]? = some ⟨call, stage⟩ ∧
      stageStep host s.shared i call stage = some (v', stage') ∧
      s' = ⟨v', s.procs.set i ⟨call, stage'⟩⟩ := by
  rcases act_cases h with ⟨call, rfl, rfl⟩ | ⟨i, c, p, t, q, rfl, hp, hnext, rfl⟩
  · exact .inl ⟨call, rfl, rfl⟩
  · obtain ⟨r, hr, hq⟩ := map_eq_some_iff.mp hnext
    cases hq
    exact .inr ⟨i, p.call, p.stage, r.1, r.2, rfl, hp, hr, rfl⟩

theorem stageStep_open {stage : Stage P} {r : Tables P × Stage P}
    (h : stageStep host v i call stage = some r) : stage ≠ .committed := by
  rintro rfl
  have hnone : next host v i ⟨call, .committed⟩ () = none := next_committed
  rw [VaultCalls.next, h] at hnone
  cases hnone

theorem step_consistent {s s' : VaultSystem P} {a : Act Call Unit} (h : Consistent host s)
    (hstep : step host s a = some s') : Consistent host s' := by
  rcases step_cases hstep with ⟨call, rfl, rfl⟩ | ⟨i, call, stage, v', stage', rfl, hp, hnext, rfl⟩
  · have hkeep : Keeps s.procs (s.procs ++ [init call]) := keeps_append _
    refine ⟨stored_keeps h.stored hkeep ?_, each_spawn ?_ trivial⟩
    · rintro t _ ⟨j, hj⟩
      refine ⟨j, ?_⟩
      rwa [List.getElem?_append_left (List.getElem?_eq_some_iff.mp hj).1]
    · intro j q hq
      exact local_kept (h.locals j q hq) (kept_refl _ _) hkeep not_createdBy_new
  · have hopen := stageStep_open hnext
    obtain ⟨hstored, hown, hkept⟩ := stageStep_advances h.stored hp (h.locals i _ hp) hnext
    refine ⟨hstored, each_move hown fun j r _ hr => ?_⟩
    exact local_kept (h.locals j r hr) hkept (keeps_set hp hopen) (not_createdBy hp hopen)

theorem run_consistent {s s' : VaultSystem P} {as : List (Act Call Unit)} (h : Consistent host s)
    (hrun : run (step host) s as = some s') : Consistent host s' :=
  run_invariant (step host) (fun _ _ _ hs hstep => step_consistent hs hstep) h hrun

end SuperFunctions.Secfn.SecretRuns
