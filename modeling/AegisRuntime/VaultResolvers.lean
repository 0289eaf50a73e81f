import AegisRuntime.ReplacementOrders
import AegisRuntime.KeyedTables

/-!
# The vault resolver

The cache of resolved secrets and what `redact_sensitive_text` makes of a text.
The rows of the cache stand in the order in which the map is iterated, which is
not specified: two resolvers with the same secrets differ in the order of their
rows. The `atlas-vault` command and the process environment come from outside.
-/

namespace AegisRuntime.VaultResolvers

open KeyedTables TextScanning TextReplacement ReplacementOrders

/-- Text that replaces a secret. -/
def REDACTED_MARKER : String := "[REDACTED_BY_ATLAS_VAULT]"

/-- What the resolver meets from outside. -/
structure VaultEnv where
  /-- What `atlas-vault get` prints for a key, if it succeeds. -/
  atlasVault : String → Option String
  /-- The variables of the process environment. -/
  var : String → Option String

/-- Whether credentials may be read from the process environment. -/
def devSecretFallbackEnabled (env : VaultEnv) : Bool :=
  match env.var "AIEN_DEV_SECRET_FALLBACK" with
  | some v => v=="1" || v=="true" || v=="on"
  | none => false

/-- A client of the vault with its cache behind a lock. -/
structure VaultResolver where
  /-- The secrets by key, in the order of the map's iteration. -/
  cache : Table fun entry : String×String => entry.1
  /-- Whether a thread has panicked while it held the lock. -/
  poisoned : Bool

/-- A resolver without secrets. -/
def VaultResolver.new : VaultResolver := ⟨Table.empty _,false⟩

/-- Puts a secret into the cache; nothing happens when the lock is poisoned. -/
def VaultResolver.insertCached (v : VaultResolver) (key secret : String) : VaultResolver :=
  if v.poisoned then v else { v with cache := v.cache.replace (key,secret) }

/-- Whether a key is in the cache. -/
def VaultResolver.hasCached (v : VaultResolver) (key : String) : Bool :=
  if v.poisoned then false else (v.cache.find key).isSome

/-- Resolves a key: from the cache, from `atlas-vault`, or from the environment
where that is allowed. What was found is cached. -/
def VaultResolver.resolveSecret (env : VaultEnv) (v : VaultResolver) (key : String) :
    Except String String×VaultResolver :=
  if (trim key.toList).isEmpty then (.error "Secret key cannot be empty",v)
  else if v.poisoned then (.error "poisoned lock: another task failed inside",v)
  else
    match v.cache.find key with
    | some entry => (.ok entry.2,v)
    | none =>
      let printed := (env.atlasVault key).map fun out => String.ofList (trim out.toList)
      match printed.filter fun val => !val.isEmpty with
      | some val => (.ok val,v.insertCached key val)
      | none =>
        match if devSecretFallbackEnabled env then env.var key else none with
        | some val => (.ok val,v.insertCached key val)
        | none => (.error ("Secret '"++key++"' was not returned by atlas-vault. VaultResolver is "++
            "a client of atlas-vault, not a TPM. Process-environment fallback is off unless "++
            "AIEN_DEV_SECRET_FALLBACK=1."),v)

/-- One replacement of the loop; a value below four bytes is left. -/
def redactSecret (sanitized : List Char) (val : String) : List Char :=
  if 4 ≤ val.utf8ByteSize then replaceAll val.toList REDACTED_MARKER.toList sanitized
  else sanitized

/-- Replaces the cached values in the text, one after the other; a poisoned lock
leaves the text as it is. -/
def VaultResolver.redactSensitiveText (v : VaultResolver) (text : String) : String :=
  if v.poisoned then text
  else String.ofList ((v.cache.rows.map Prod.snd).foldl redactSecret text.toList)

variable {v v' : VaultResolver}

/-- The resolvers that the operations lead to, with any order of iteration. -/
inductive Reaches : VaultResolver → Prop where
  /-- A new resolver. -/
  | new : Reaches VaultResolver.new
  /-- A secret was inserted. -/
  | inserted {v : VaultResolver} (h : Reaches v) (key secret : String) :
    Reaches (v.insertCached key secret)
  /-- A key was resolved. -/
  | resolved {v : VaultResolver} (h : Reaches v) (env : VaultEnv) (key : String) :
    Reaches (v.resolveSecret env key).2
  /-- The map is iterated in another order. -/
  | reordered {v : VaultResolver} (h : Reaches v) (cache : Table fun e : String×String => e.1)
    (hperm : cache.rows.Perm v.cache.rows) : Reaches { v with cache := cache }

theorem insertCached_poisoned (v : VaultResolver) (key secret : String) :
    (v.insertCached key secret).poisoned=v.poisoned := by
  unfold VaultResolver.insertCached
  split <;> rfl

/-- No operation poisons the lock. -/
theorem poisoned_of_reaches (h : Reaches v) : v.poisoned=false := by
  induction h with
  | new => rfl
  | inserted _ key secret ih => rw [insertCached_poisoned,ih]
  | resolved _ env key ih =>
    unfold VaultResolver.resolveSecret
    split
    · exact ih
    · split
      · exact ih
      · split
        · exact ih
        · simp only []
          split
          · rw [insertCached_poisoned,ih]
          · split
            · rw [insertCached_poisoned,ih]
            · exact ih
  | reordered _ cache hperm ih => exact ih

/-- The marker of the vault. -/
def vaultMarker : Marker :=
  Marker.bracketed "REDACTED_BY_ATLAS_VAULT".toList (by decide) (by decide)

theorem vaultMarker_text : vaultMarker.text=REDACTED_MARKER.toList := by decide

/-- The cached values that are replaced, in order. -/
def secrets (v : VaultResolver) : List (List Char) :=
  ((v.cache.rows.map Prod.snd).filter fun val => decide (4 ≤ val.utf8ByteSize)).map String.toList

theorem foldl_redactSecret (vals : List String) (cs : List Char) :
    vals.foldl redactSecret cs=replaceEach vaultMarker
      ((vals.filter fun val => decide (4 ≤ val.utf8ByteSize)).map String.toList) cs := by
  induction vals generalizing cs with
  | nil => rfl
  | cons val vals ih =>
    rw [List.foldl_cons,ih,redactSecret]
    by_cases h : 4 ≤ val.utf8ByteSize
    · rw [if_pos h,List.filter_cons_of_pos (by simpa using h),List.map_cons,replaceEach_cons,
        vaultMarker_text]
    · rw [if_neg h,List.filter_cons_of_neg (by simpa using h)]

/-- An open resolver replaces its secrets one after the other. -/
theorem redactSensitiveText_eq (h : v.poisoned=false) (text : String) :
    v.redactSensitiveText text=
      String.ofList (replaceEach vaultMarker (secrets v) text.toList) := by
  rw [VaultResolver.redactSensitiveText,h,if_neg Bool.false_ne_true,foldl_redactSecret]
  rfl

/-- A secret that is replaced is not empty. -/
theorem secrets_ne_nil {s : List Char} (h : s∈secrets v) : s≠[] := by
  obtain ⟨val,hval,rfl⟩ := List.mem_map.mp h
  have hsize : 4 ≤ val.utf8ByteSize := of_decide_eq_true (List.mem_filter.mp hval).2
  exact toList_ne_nil (by omega)

theorem mem_secrets {key secret : String} (h : (key,secret)∈v.cache.rows)
    (hsize : 4 ≤ secret.utf8ByteSize) : secret.toList∈secrets v :=
  List.mem_map_of_mem (List.mem_filter.mpr ⟨List.mem_map_of_mem h,decide_eq_true hsize⟩)

/-- No cached secret survives the redaction: of any cache in any order of iteration,
a secret of at least four bytes without brackets that is not part of the marker
does not occur in the redacted text. No operation leads to a resolver whose lock
is poisoned. -/
theorem no_secret_survives :
    (∀ (v : VaultResolver) (text : String), v.poisoned=false → ∀ key secret,
      (key,secret)∈v.cache.rows → 4 ≤ secret.utf8ByteSize → '['∉secret.toList →
        ']'∉secret.toList → ¬ secret.toList<:+:"REDACTED_BY_ATLAS_VAULT".toList →
          ¬ secret.toList<:+:(v.redactSensitiveText text).toList) ∧
      ∀ v, Reaches v → v.poisoned=false := by
  refine ⟨fun v text hopen key secret hmem hsize hfirst hlast hinner => ?_,
    fun v => poisoned_of_reaches⟩
  rw [redactSensitiveText_eq hopen,String.toList_ofList]
  exact not_infix_replaceEach (m:=vaultMarker) (fun s hs => secrets_ne_nil hs)
    (mem_secrets hmem hsize) ⟨hfirst,hlast⟩ hinner

/-- Two resolvers hold the same secrets: their caches differ in the order of
iteration alone. -/
def SameSecrets (v v' : VaultResolver) : Prop :=
  v.cache.rows.Perm v'.cache.rows ∧ v.poisoned=v'.poisoned

/-- Every resolver with the same secrets redacts every text identically. -/
def OrderFree (v : VaultResolver) : Prop :=
  ∀ v', SameSecrets v v' → ∀ text, v.redactSensitiveText text=v'.redactSensitiveText text

/-- Of the cached values of at least four bytes other than the marker, no two
different ones overlap, and none overlaps the marker if there are two. -/
def SecretsSeparate (v : VaultResolver) : Prop := Separate vaultMarker (secrets v)

/-- A poisoned lock leaves every text as it is, in every order. -/
theorem orderFree_of_poisoned (h : v.poisoned=true) : OrderFree v := by
  rintro v' ⟨-,hlock⟩ text
  rw [VaultResolver.redactSensitiveText,VaultResolver.redactSensitiveText,←hlock,h]
  rfl

/-- The redaction by separate secrets does not depend on the order. -/
theorem orderFree_of_separate (h : SecretsSeparate v) : OrderFree v := by
  cases hlock : v.poisoned with
  | true => exact orderFree_of_poisoned hlock
  | false =>
    intro v' ⟨hperm,hsame⟩ text
    have hsecrets : (secrets v).Perm (secrets v') := ((hperm.map _).filter _).map _
    rw [redactSensitiveText_eq hlock,redactSensitiveText_eq (hsame ▸ hlock),
      replaceEach_perm (fun s hs => secrets_ne_nil hs) h hsecrets]

/-- Whether a row holds a value that is replaced. -/
def replaces (entry : String×String) : Bool := decide (4 ≤ entry.2.utf8ByteSize)

theorem secrets_eq (v : VaultResolver) :
    secrets v=(v.cache.rows.filter replaces).map fun entry => entry.2.toList := by
  rw [secrets,List.filter_map,List.map_map]
  rfl

/-- Every order of the secrets is the order of some resolver with the same cache. -/
theorem exists_order {ss : List (List Char)} (h : (secrets v).Perm ss) :
    ∃ v', SameSecrets v v' ∧ secrets v'=ss := by
  rw [secrets_eq] at h
  have hrel := List.eq_map_comp_perm fun entry : String×String => entry.2.toList
  obtain ⟨big,rfl,hbig⟩ := (congrFun (congrFun hrel ss) (v.cache.rows.filter replaces)).mpr h.symm
  let rows := big++v.cache.rows.filter fun entry => !replaces entry
  have hrows : v.cache.rows.Perm rows :=
    (List.filter_append_perm replaces v.cache.rows).symm.trans (hbig.symm.append_right _)
  refine ⟨⟨⟨rows,(hrows.map _).nodup_iff.mp v.cache.keys_nodup⟩,v.poisoned⟩,⟨hrows,rfl⟩,?_⟩
  have hall : big.filter replaces=big := List.filter_eq_self.mpr fun entry hentry =>
    (List.mem_filter.mp (hbig.subset hentry)).2
  have hnone : (v.cache.rows.filter fun entry => !replaces entry).filter replaces=[] := by
    rw [List.filter_eq_nil_iff]
    intro entry hentry
    simpa using (List.mem_filter.mp hentry).2
  rw [secrets_eq]
  simp only [rows,List.filter_append,hall,hnone,List.append_nil]

/-- Without a poisoned lock, a redaction by secrets free of brackets that are not
separate depends on the order. -/
theorem separate_of_orderFree (hopen : v.poisoned=false)
    (hfree : ∀ s∈secrets v, '['∉s ∧ ']'∉s) (h : OrderFree v) : SecretsSeparate v := by
  by_contra hnot
  have hall : AllFree vaultMarker (secrets v) := fun s hs => ⟨secrets_ne_nil hs,hfree s hs⟩
  obtain ⟨ps,qs,cs,hps,hqs,hdiffer⟩ := orderMatters_of_not_separate hall hnot
  obtain ⟨vp,hvp,rfl⟩ := exists_order hps
  obtain ⟨vq,hvq,rfl⟩ := exists_order hqs
  have heq := (h vp hvp (String.ofList cs)).symm.trans (h vq hvq (String.ofList cs))
  rw [redactSensitiveText_eq (hvp.2 ▸ hopen),redactSensitiveText_eq (hvq.2 ▸ hopen),
    String.ofList_inj,String.toList_ofList] at heq
  exact hdiffer heq

/-- The redaction does not depend on the order of iteration when the lock is poisoned
or the secrets are separate, and for secrets without brackets only then. -/
theorem redaction_order_free (v : VaultResolver) :
    (v.poisoned=true ∨ SecretsSeparate v → OrderFree v) ∧
      ((∀ s∈secrets v, '['∉s ∧ ']'∉s) →
        (OrderFree v ↔ v.poisoned=true ∨ SecretsSeparate v)) := by
  have henough : v.poisoned=true ∨ SecretsSeparate v → OrderFree v := fun h =>
    h.elim orderFree_of_poisoned orderFree_of_separate
  refine ⟨henough,fun hfree => ⟨fun h => ?_,henough⟩⟩
  cases hlock : v.poisoned with
  | true => exact .inl rfl
  | false => exact .inr (separate_of_orderFree hlock hfree h)

/-- A secret inside another one, iterated before it. -/
def shortFirst : VaultResolver where
  cache := ⟨[("A","abcd"),("B","abcdef")],by decide⟩
  poisoned := false

/-- The same secrets in the other order. -/
def longFirst : VaultResolver where
  cache := ⟨[("B","abcdef"),("A","abcd")],by decide⟩
  poisoned := false

/-- Two resolvers that hold the same secrets redact a text differently. -/
theorem redaction_depends_on_order : ¬ ∀ v v' : VaultResolver, SameSecrets v v' → ∀ text,
    v.redactSensitiveText text=v'.redactSensitiveText text := by
  intro hall
  have hsame : SameSecrets shortFirst longFirst := ⟨List.Perm.swap _ _ _,rfl⟩
  have heq := hall shortFirst longFirst hsame "abcdef"
  exact absurd heq (by decide)

end AegisRuntime.VaultResolvers
