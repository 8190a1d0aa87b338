import SuperFunctions.Secfn.VaultCalls

/-!
# Secrets and versions as they are stored

What holds of the stored secrets and of their versions between any two accesses, and that each
kind of access keeps it.
-/
namespace SuperFunctions.Secfn.StoredSecrets

open Lib.Processes (nodup_map_append)
open Vault VaultScopes VaultCalls List

variable {P : Type} {host : Host P} {v v' : Tables P} {procs procs' : List (Proc P)}

/-- The namespace and the environment of a secret are rows of its tenant and belong together. -/
structure Placed (v : Tables P) (s : Secret) : Prop where
  «namespace» : ∃ n ∈ v.namespaces, n.id = s.namespaceId ∧
    (truthy s.tenantId ≠ none → n.tenantId = s.tenantId)
  environment : ∃ e ∈ v.environments, e.id = s.environmentId ∧
    (s.tenantId ≠ none → e.tenantId = s.tenantId) ∧
    (e.namespaceId = none ∨ e.namespaceId = some s.namespaceId)

/-- The call that wrote a version has committed it, and its payload is the value of that call
under the associated data of the stored secret. -/
structure Sealed (host : Host P) (procs : List (Proc P)) (v : Tables P) (r : SecretVersion P) :
    Prop where
  created : CreatedBy procs r.secretId
  written : ∃ (call : Call) (value : String), procs[r.id]? = some ⟨call, .committed⟩ ∧
    writes r.id call = some (r.secretId, value) ∧
    ∀ s ∈ v.secrets, s.id = r.secretId →
      r.encryptedPayload = host.encryptSecret value (secretAad s r.version)

/-- A delete of the secret has removed its versions and not yet its row. -/
def Unversioned (procs : List (Proc P)) (id : Nat) : Prop :=
  ∃ j : Nat, procs[j]? = some ⟨.deleteSecret id, .unversioned⟩

def HasCurrent (v : Tables P) (s : Secret) : Prop :=
  ∃ r ∈ v.versions, r.secretId = s.id ∧ r.version = s.currentVersion

def SameKey (s t : Secret) : Prop :=
  s.tenantId = t.tenantId ∧ s.namespaceId = t.namespaceId ∧ s.environmentId = t.environmentId ∧
    s.key = t.key

def versionKey (r : SecretVersion P) : Nat × Nat := (r.secretId, r.version)

structure Stored (host : Host P) (procs : List (Proc P)) (v : Tables P) : Prop where
  directory : DirectoryOk host v
  ids : (v.secrets.map Secret.id).Nodup
  created : ∀ s ∈ v.secrets, CreatedBy procs s.id
  placed : ∀ s ∈ v.secrets, Placed v s
  keys : ∀ s ∈ v.secrets, ∀ t ∈ v.secrets, s.tenantId ≠ none → SameKey s t → s.id = t.id
  versionKeys : (v.versions.map versionKey).Nodup
  sealed : ∀ r ∈ v.versions, Sealed host procs v r
  current : ∀ s ∈ v.secrets, HasCurrent v s ∨ Unversioned procs s.id

/-- What has committed stays so. -/
def Keeps (procs procs' : List (Proc P)) : Prop :=
  ∀ (j : Nat) (call : Call), procs[j]? = some ⟨call, .committed⟩ →
    procs'[j]? = some ⟨call, .committed⟩

theorem createdBy_keeps {i : Nat} (h : CreatedBy procs i) (hkeep : Keeps procs procs') :
    CreatedBy procs' i := by
  obtain ⟨scope, key, value, hcall⟩ := h
  exact ⟨scope, key, value, hkeep i _ hcall⟩

theorem stored_keeps (h : Stored host procs v) (hkeep : Keeps procs procs')
    (hdelete : ∀ s ∈ v.secrets, Unversioned procs s.id → Unversioned procs' s.id) :
    Stored host procs' v := { h with
  created s hs := createdBy_keeps (h.created s hs) hkeep
  sealed r hr := by
    obtain ⟨hcreated, call, value, hcall, hwrites, hpayload⟩ := h.sealed r hr
    exact ⟨createdBy_keeps hcreated hkeep, call, value, hkeep _ _ hcall, hwrites, hpayload⟩
  current s hs := (h.current s hs).imp_right (hdelete s hs) }

theorem stored_empty : Stored host procs Tables.empty where
  directory := {
    namespaceIds := nodup_nil
    namespaceFresh := fun _ h => absurd h not_mem_nil
    slugs := fun _ h => absurd h not_mem_nil
    environmentIds := nodup_nil
    environmentFresh := fun _ h => absurd h not_mem_nil
    names := fun _ h => absurd h not_mem_nil }
  ids := nodup_nil
  created _ h := absurd h not_mem_nil
  placed _ h := absurd h not_mem_nil
  keys _ h := absurd h not_mem_nil
  versionKeys := nodup_nil
  sealed _ h := absurd h not_mem_nil
  current _ h := absurd h not_mem_nil

variable {s : Secret}

theorem Placed.grows (h : Placed v s) (hgrows : Grows v v') : Placed v' s where
  «namespace» := by
    obtain ⟨n, hn, hrest⟩ := h.«namespace»
    exact ⟨n, hgrows.mem_namespaces hn, hrest⟩
  environment := by
    obtain ⟨e, he, hrest⟩ := h.environment
    exact ⟨e, hgrows.mem_environments he, hrest⟩

theorem directory_congr (h : DirectoryOk host v) (hnamespaces : v'.namespaces = v.namespaces)
    (henvironments : v'.environments = v.environments) (hnext : v'.nextId = v.nextId) :
    DirectoryOk host v' where
  namespaceIds := by rw [hnamespaces]; exact h.namespaceIds
  namespaceFresh := by rw [hnamespaces, hnext]; exact h.namespaceFresh
  slugs := by rw [hnamespaces]; exact h.slugs
  environmentIds := by rw [henvironments]; exact h.environmentIds
  environmentFresh := by rw [henvironments, hnext]; exact h.environmentFresh
  names := by rw [henvironments]; exact h.names

theorem stored_extends (h : Stored host procs v) (hext : Extends host v v') :
    Stored host procs v' where
  directory := hext.ok
  ids := by rw [hext.grows.secrets]; exact h.ids
  created s hs := h.created s (by rwa [hext.grows.secrets] at hs)
  placed s hs := (h.placed s (by rwa [hext.grows.secrets] at hs)).grows hext.grows
  keys := by rw [hext.grows.secrets]; exact h.keys
  versionKeys := by rw [hext.grows.versions]; exact h.versionKeys
  sealed r hr := by
    obtain ⟨hcreated, call, value, hcall, hwrites, hpayload⟩ :=
      h.sealed r (by rwa [hext.grows.versions] at hr)
    refine ⟨hcreated, call, value, hcall, hwrites, ?_⟩
    rwa [hext.grows.secrets]
  current s hs := by
    have hs : s ∈ v.secrets := by rwa [hext.grows.secrets] at hs
    refine (h.current s hs).imp_left fun hcurrent => ?_
    unfold HasCurrent
    rwa [hext.grows.versions]

theorem keyTaken_false (h : keyTaken v s = false) (htenant : s.tenantId ≠ none) {t : Secret}
    (ht : t ∈ v.secrets) (hid : t.id ≠ s.id) : ¬SameKey t s := by
  rintro ⟨htenantEq, hns, henv, hkey⟩
  have htaken : keyTaken v s = true :=
    decide_eq_true ⟨htenant, t, ht, hid, htenantEq, hns, henv, hkey⟩
  rw [h] at htaken
  cases htaken

variable {r : SecretVersion P}

theorem versionTaken_false {secretId version : Nat} (h : versionTaken v secretId version = false)
    (hr : r ∈ v.versions) : versionKey r ≠ (secretId, version) := by
  intro hkey
  have htaken : versionTaken v secretId version = true :=
    decide_eq_true ⟨r, hr, congrArg Prod.fst hkey, congrArg Prod.snd hkey⟩
  rw [h] at htaken
  cases htaken

theorem nodup_append_version (h : (v.versions.map versionKey).Nodup)
    (hfree : versionTaken v r.secretId r.version = false) :
    ((v.versions ++ [r]).map versionKey).Nodup :=
  nodup_map_append h fun _ hold => versionTaken_false hfree hold

/-! ## The writes -/

theorem stored_insert {scope : Scope} {key value : String} (h : Stored host procs v)
    (hcall : procs[s.id]? = some ⟨.createSecret scope key value, .committed⟩) (hplaced : Placed v s)
    (hfresh : ∀ t ∈ v.secrets, t.id ≠ s.id) (hunused : ∀ r ∈ v.versions, r.secretId ≠ s.id)
    (hinsert : insertSecret v s (createVersion host s.id s value) = .ok v') :
    Stored host procs v' := by
  unfold insertSecret at hinsert
  split at hinsert
  · cases hinsert
  case isFalse hfree =>
  obtain ⟨hkey, hversion⟩ := not_or.mp hfree
  have hkey := Bool.eq_false_iff.mpr hkey
  have hversion := Bool.eq_false_iff.mpr hversion
  cases hinsert
  have hcreated : CreatedBy procs s.id := ⟨scope, key, value, hcall⟩
  refine ⟨directory_congr h.directory rfl rfl rfl, ?_, ?_, ?_, ?_,
    nodup_append_version h.versionKeys hversion, ?_, ?_⟩
  · exact nodup_map_append h.ids hfresh
  · intro t ht
    rcases mem_append.mp ht with ht | ht
    · exact h.created t ht
    · rwa [mem_singleton.mp ht]
  · intro t ht
    have hplace : Placed v t := by
      rcases mem_append.mp ht with ht | ht
      · exact h.placed t ht
      · rwa [mem_singleton.mp ht]
    exact ⟨hplace.«namespace», hplace.environment⟩
  · intro t ht u hu htenant hsame
    rcases mem_append.mp ht with ht | ht <;> rcases mem_append.mp hu with hu | hu
    · exact h.keys t ht u hu htenant hsame
    · rw [mem_singleton.mp hu] at hsame ⊢
      exact absurd hsame (keyTaken_false hkey (hsame.1 ▸ htenant) ht (hfresh t ht))
    · rw [mem_singleton.mp ht] at hsame htenant ⊢
      have hback : SameKey u s := ⟨hsame.1.symm, hsame.2.1.symm, hsame.2.2.1.symm, hsame.2.2.2.symm⟩
      exact absurd hback (keyTaken_false hkey htenant hu (hfresh u hu))
    · rw [mem_singleton.mp ht, mem_singleton.mp hu]
  · intro r hr
    rcases mem_append.mp hr with hr | hr
    · obtain ⟨hby, call, written, hcommitted, hwrites, hpayload⟩ := h.sealed r hr
      refine ⟨hby, call, written, hcommitted, hwrites, fun t ht hid => ?_⟩
      rcases mem_append.mp ht with ht | ht
      · exact hpayload t ht hid
      · rw [mem_singleton.mp ht] at hid
        exact absurd hid.symm (hunused r hr)
    · rw [mem_singleton.mp hr]
      refine ⟨hcreated, _, value, hcall, rfl, fun t ht hid => ?_⟩
      rcases mem_append.mp ht with ht | ht
      · exact absurd hid (hfresh t ht)
      · rw [mem_singleton.mp ht]
        rfl
  · intro t ht
    rcases mem_append.mp ht with ht | ht
    · refine (h.current t ht).imp_left fun hcurrent => ?_
      obtain ⟨r, hr, hrest⟩ := hcurrent
      exact ⟨r, mem_append_left _ hr, hrest⟩
    · rw [mem_singleton.mp ht]
      exact .inl ⟨_, mem_append_right _ (mem_singleton.mpr rfl), rfl, rfl⟩

theorem stored_append_version (h : Stored host procs v)
    (hfree : versionTaken v r.secretId r.version = false) (hsealed : Sealed host procs v r) :
    Stored host procs { v with versions := v.versions ++ [r] } := { h with
  directory := directory_congr h.directory rfl rfl rfl
  placed s hs := ⟨(h.placed s hs).«namespace», (h.placed s hs).environment⟩
  versionKeys := nodup_append_version h.versionKeys hfree
  sealed other hother := by
    have hold : Sealed host procs v other := by
      rcases mem_append.mp hother with hin | hin
      · exact h.sealed other hin
      · rwa [mem_singleton.mp hin]
    exact ⟨hold.created, hold.written⟩
  current s hs := by
    refine (h.current s hs).imp_left fun hcurrent => ?_
    obtain ⟨old, hold, hrest⟩ := hcurrent
    exact ⟨old, mem_append_left _ hold, hrest⟩ }

/-- A change of a row that leaves its id and its place alone. -/
def Modest (change : Secret → Secret) : Prop :=
  ∀ s, (change s).id = s.id ∧ (change s).tenantId = s.tenantId ∧
    (change s).namespaceId = s.namespaceId ∧ (change s).environmentId = s.environmentId

/-- The row of the id is changed and the others stay. -/
def changedAt (id : Nat) (change : Secret → Secret) (s : Secret) : Secret :=
  if s.id = id then change s else s

variable {change : Secret → Secret}

theorem changedAt_modest (h : Modest change) (id : Nat) : Modest (changedAt id change) := by
  intro s
  unfold changedAt
  split
  · exact h s
  · exact ⟨rfl, rfl, rfl, rfl⟩

variable {id : Nat}

theorem updateSecretRow_ok (h : updateSecretRow v id change = .ok v') :
    (∃ s ∈ v.secrets, s.id = id ∧ keyTaken v (change s) = false) ∧
      v' = { v with secrets := v.secrets.map (changedAt id change) } := by
  unfold updateSecretRow at h
  split at h
  · cases h
  case h_2 s hfind =>
    split at h
    · cases h
    case isFalse hfree =>
      cases h
      have hid := find?_satisfies hfind
      exact ⟨⟨s, mem_of_find?_eq_some hfind, hid, Bool.eq_false_iff.mpr hfree⟩, rfl⟩

section

variable (h : Stored host procs v)
include h

theorem stored_changed (hmodest : Modest change) (hupdate : updateSecretRow v id change = .ok v')
    (hcurrent : ∀ s ∈ v.secrets, s.id = id → HasCurrent v (change s) ∨ Unversioned procs id) :
    Stored host procs v' := by
  obtain ⟨⟨found, hfound, hfoundId, hfree⟩, rfl⟩ := updateSecretRow_ok hupdate
  have hkept := changedAt_modest hmodest id
  have hclash : ∀ s ∈ v.secrets, ∀ t ∈ v.secrets, s.id = id → t.id ≠ id → s.tenantId ≠ none →
      ¬SameKey t (change s) := by
    intro s hs t ht hsid htid htenant
    have hsame : s = found := inj_on_of_nodup_map h.ids hs hfound (hsid.trans hfoundId.symm)
    subst hsame
    obtain ⟨hid, htenantKept, _⟩ := hmodest s
    apply keyTaken_false hfree (by rwa [htenantKept]) ht
    rwa [hid, hsid]
  refine ⟨directory_congr h.directory rfl rfl rfl, ?_, ?_, ?_, ?_, h.versionKeys, ?_, ?_⟩
  · have hmap : (v.secrets.map (changedAt id change)).map Secret.id = v.secrets.map Secret.id := by
      rw [map_map]
      exact map_congr_left fun s _ => (hkept s).1
    rw [hmap]
    exact h.ids
  · refine forall_mem_map.mpr fun s hs => ?_
    rw [(hkept s).1]
    exact h.created s hs
  · refine forall_mem_map.mpr fun s hs => ?_
    obtain ⟨_, htenant, hns, henv⟩ := hkept s
    have hplace := h.placed s hs
    refine ⟨?_, ?_⟩
    · rw [hns, htenant]
      exact hplace.«namespace»
    · rw [henv, htenant, hns]
      exact hplace.environment
  · intro t ht u hu htenant hsame
    obtain ⟨s, hs, rfl⟩ := mem_map.mp ht
    obtain ⟨w, hw, rfl⟩ := mem_map.mp hu
    rw [(hkept s).1, (hkept w).1]
    have htenant : s.tenantId ≠ none := by rwa [(hkept s).2.1] at htenant
    have htenantOther : w.tenantId ≠ none := by
      have heq := hsame.1
      rw [(hkept s).2.1, (hkept w).2.1] at heq
      rwa [← heq]
    by_cases hsid : s.id = id <;> by_cases hwid : w.id = id
    · rw [hsid, hwid]
    · rw [changedAt, if_pos hsid, changedAt, if_neg hwid] at hsame
      have hback : SameKey w (change s) :=
        ⟨hsame.1.symm, hsame.2.1.symm, hsame.2.2.1.symm, hsame.2.2.2.symm⟩
      exact absurd hback (hclash s hs w hw hsid hwid htenant)
    · rw [changedAt, if_neg hsid, changedAt, if_pos hwid] at hsame
      exact absurd hsame (hclash w hw s hs hwid hsid htenantOther)
    · rw [changedAt, if_neg hsid, changedAt, if_neg hwid] at hsame
      exact h.keys s hs w hw htenant hsame
  · intro r hr
    obtain ⟨hby, call, value, hcall, hwrites, hpayload⟩ := h.sealed r hr
    refine ⟨hby, call, value, hcall, hwrites, fun t ht hid => ?_⟩
    obtain ⟨s, hs, rfl⟩ := mem_map.mp ht
    obtain ⟨hidKept, htenant, hns, _⟩ := hkept s
    have hsid : s.id = r.secretId := by rwa [hidKept] at hid
    have haad : secretAad (changedAt id change s) r.version = secretAad s r.version := by
      rw [secretAad, secretAad, hidKept, htenant, hns]
    rw [haad]
    exact hpayload s hs hsid
  · refine forall_mem_map.mpr fun s hs => ?_
    by_cases hsid : s.id = id
    · rw [changedAt, if_pos hsid]
      have hnow := hcurrent s hs hsid
      rwa [(hmodest s).1, hsid]
    · rw [changedAt, if_neg hsid]
      exact h.current s hs

theorem stored_update (hmodest : Modest change)
    (hversion : ∀ s, (change s).currentVersion = s.currentVersion)
    (hupdate : updateSecretRow v id change = .ok v') : Stored host procs v' := by
  refine stored_changed h hmodest hupdate fun s hs hsid => ?_
  unfold HasCurrent
  rw [hversion s, (hmodest s).1, ← hsid]
  exact h.current s hs

theorem stored_rotate (hid : r.secretId = id) (hsealed : Sealed host procs v r)
    (hinsert : insertVersion v id r = .ok v') : Stored host procs v' := by
  unfold insertVersion at hinsert
  split at hinsert
  · cases hinsert
  case isFalse hfree =>
  have hadded := stored_append_version h (Bool.eq_false_iff.mpr hfree) hsealed
  have hmodest : Modest fun s => { s with currentVersion := r.version } :=
    fun _ => ⟨rfl, rfl, rfl, rfl⟩
  refine stored_changed hadded hmodest hinsert fun s _ hsid => .inl ?_
  exact ⟨r, mem_append_right _ (mem_singleton.mpr rfl), hid.trans hsid.symm, rfl⟩

theorem stored_deleteMembersOf (id : Nat) :
    Stored host procs (deleteMembersOf v id) := { h with
  directory := directory_congr h.directory rfl rfl rfl
  placed s hs := ⟨(h.placed s hs).«namespace», (h.placed s hs).environment⟩
  sealed r hr := ⟨(h.sealed r hr).created, (h.sealed r hr).written⟩ }

/-- The versions go while the delete stands before its last access. -/
theorem stored_deleteVersionsOf (hdelete : Unversioned procs id) :
    Stored host procs (deleteVersionsOf v id) := { h with
  directory := directory_congr h.directory rfl rfl rfl
  placed s hs := ⟨(h.placed s hs).«namespace», (h.placed s hs).environment⟩
  versionKeys := h.versionKeys.sublist (filter_sublist.map versionKey)
  sealed r hr := by
    have hold := h.sealed r (mem_of_mem_filter hr)
    exact ⟨hold.created, hold.written⟩
  current s hs := by
    by_cases hsid : s.id = id
    · exact .inr (hsid ▸ hdelete)
    refine (h.current s hs).imp_left fun hcurrent => ?_
    obtain ⟨r, hr, hrid, hversion⟩ := hcurrent
    refine ⟨r, mem_filter.mpr ⟨hr, decide_eq_true ?_⟩, hrid, hversion⟩
    rw [hrid]
    exact hsid }

theorem stored_deleteSecretRow (id : Nat) :
    Stored host procs (deleteSecretRow v id) := { h with
  directory := directory_congr h.directory rfl rfl rfl
  ids := h.ids.sublist (filter_sublist.map Secret.id)
  created s hs := h.created s (mem_of_mem_filter hs)
  placed s hs := by
    have hold := h.placed s (mem_of_mem_filter hs)
    exact ⟨hold.«namespace», hold.environment⟩
  keys s hs t ht := h.keys s (mem_of_mem_filter hs) t (mem_of_mem_filter ht)
  sealed r hr := by
    obtain ⟨hby, call, value, hcall, hwrites, hpayload⟩ := h.sealed r hr
    exact ⟨hby, call, value, hcall, hwrites, fun s hs => hpayload s (mem_of_mem_filter hs)⟩
  current s hs := h.current s (mem_of_mem_filter hs) }

end

end SuperFunctions.Secfn.StoredSecrets
