import ConfidentialCompute.Executor.Secrets
import ConfidentialCompute.Lib.Heap
import ConfidentialCompute.Lib.Runs

/-!
# Calls that share the executor's cache

Calls of `GetEncryptedDecryptionShares` run side by side and share the executor's cache. A call
is taken apart at each access to it: it gets one entry after the other, it asks the vault, and
it sets one entry after the other. In between, entries may expire, be evicted or be collected,
and the settings may change.
-/

namespace ConfidentialCompute

open Go Runs

/-! ## Calls -/

/-- What an entry of the cache is stored for. -/
structure CacheIdentity where
  publicKey : Slice UInt8
  secret : SecretIdentifier
  workflowOwner : GoString
deriving DecidableEq

namespace CacheIdentity

def text (q : CacheIdentity) : Bytes := secretCacheText q.publicKey q.secret q.workflowOwner

def cacheKey (crypto : Crypto) (q : CacheIdentity) : Bytes32 :=
  generateSecretCacheKey crypto q.publicKey q.secret q.workflowOwner

end CacheIdentity

/-- The arguments of a call. -/
structure FetchArgs where
  secrets : Slice SecretIdentifier
  publicKey : Slice UInt8
  metadata : RequestMetadata

namespace FetchArgs

def identity (args : FetchArgs) (secret : SecretIdentifier) : CacheIdentity :=
  ⟨args.publicKey, secret, args.metadata.workflowOwner⟩

def identities (args : FetchArgs) : List CacheIdentity := args.secrets.data.map args.identity

end FetchArgs

/-- The ciphertext and the shares of one secret. -/
abbrev Material := Slice UInt8 × Slice (Slice UInt8)

/-- Where a call is. The setting of the cache is read once; `asking` remembers it. -/
inductive FetchPhase where
  | reading (cached : Slice CachedEDKS) (todo : List SecretIdentifier)
      (fits : cached.data.length + todo.length < 2 ^ 63)
  | asking (enableSecretsCache : Bool)
  | storing (todo : List (SecretIdentifier × Material)) (found : EncryptedSecrets)
  | nothingRequired
  | served (entries : Slice CachedEDKS)
  | fetched (found : EncryptedSecrets)
  | failed (err : ExecutorError)
  | panicked

/-- How a call has ended. -/
def FetchPhase.result : FetchPhase → Option (Outcome ExecutorError EncryptedSecrets)
  | .nothingRequired => some (.ok noSecrets)
  | .served entries => some (.ok (fromCache entries))
  | .fetched found => some (.ok found)
  | .failed err => some (.err err)
  | .panicked => some .panicked
  | _ => none

structure FetchCall extends FetchArgs where
  phase : FetchPhase

def FetchCall.toPhase (phase : FetchPhase) (call : FetchCall) : FetchCall :=
  { call with phase := phase }

structure FetchState where
  executor : Executor
  calls : List FetchCall

/-! ## Steps -/

inductive FetchAction where
  | start (args : FetchArgs)
  /-- The next access of a call to the cache, or its return. -/
  | proceed (id : Nat)
  /-- A call asks the vault and evaluates the answer. -/
  | ask (id : Nat) (w : VaultWorld)
  | evict (key : Bytes32)
  | garbageCollect
  | reconfigure (enableSecretsCache vaultInitialized : Bool) (cryptographyThreshold : Int)

/-- A step and the reading of the clock it makes. -/
structure FetchLabel where
  now : Int
  action : FetchAction

/-- The start of a call, up to its first access to the cache or to the vault. -/
def Executor.startFetch (px : ExecutorPlatform) (e : Executor) (args : FetchArgs) : FetchPhase :=
  if px.loggable args.publicKey = false then .panicked
  else if args.secrets.length = 0 then .nothingRequired
  else if ¬ e.vaultInitialized then
    .failed (errorf (ascii "VaultDON capability is not initialized"))
  else if e.enableSecretsCache then
    .reading ∅ args.secrets.data ((Nat.zero_add _).symm ▸ args.secrets.bound)
  else .asking false

theorem push_fits {cached : Slice CachedEDKS} {secret : SecretIdentifier}
    {todo : List SecretIdentifier} (fits : cached.data.length + (secret :: todo).length < 2 ^ 63)
    (entry : CachedEDKS) : (cached.data ++ [entry]).length + todo.length < 2 ^ 63 := by
  simp only [List.length_append, List.length_cons, List.length_nil] at fits ⊢
  omega

/-- One access to the cache. -/
def FetchCall.proceed (crypto : Crypto) (now : Int) (cache : Cache Bytes32 CachedEDKS)
    (call : FetchCall) : Option (Cache Bytes32 CachedEDKS × FetchPhase) :=
  match call.phase with
  | .reading cached [] _ =>
      some (cache, if cachedPublicKeysMatch cached.data then .served cached else .asking true)
  | .reading cached (secret :: todo) fits =>
      match cache.get now ((call.identity secret).cacheKey crypto) with
      | none => some (cache, .asking true)
      | some entry =>
          have fits' := push_fits fits entry
          some (cache, .reading ⟨cached.data ++ [entry],
            Nat.lt_of_le_of_lt (Nat.le_add_right _ _) fits'⟩ todo fits')
  | .storing [] found => some (cache, .fetched found)
  | .storing ((secret, material) :: todo) found =>
      some (cache.set now ((call.identity secret).cacheKey crypto)
        ⟨material.1, material.2, found.rawVaultPublicKey⟩ none, .storing todo found)
  | _ => none

/-- What is to be stored, one entry for each secret. -/
def FetchArgs.toStore (args : FetchArgs) (found : EncryptedSecrets) :
    List (SecretIdentifier × Material) :=
  args.secrets.data.zip (found.encryptedSecrets.data.zip found.encryptedDecryptionShares.data)

/-- From the request to the vault to the evaluated answer. -/
def FetchArgs.ask (px : ExecutorPlatform) (threshold : Int) (args : FetchArgs)
    (enableSecretsCache : Bool) (w : VaultWorld) : FetchPhase :=
  match vaultRequest px args.publicKey args.metadata args.secrets w with
  | .error err => .failed err
  | .ok request =>
      match w.answer.evaluate threshold request.requests with
      | .error err => .failed err
      | .ok found =>
          if enableSecretsCache then .storing (args.toStore found) found else .fetched found

def Executor.withCache (e : Executor) (cache : Cache Bytes32 CachedEDKS) : Executor :=
  { e with secretsCache := cache }

def FetchState.step (px : ExecutorPlatform) (s : FetchState) (l : FetchLabel) :
    Option FetchState :=
  match l.action with
  | .start args => some { s with calls := s.calls ++ [⟨args, s.executor.startFetch px args⟩] }
  | .proceed id => do
      let call ← s.calls[id]?
      let (cache, phase) ← call.proceed px.toCrypto l.now s.executor.secretsCache
      return ⟨s.executor.withCache cache, s.calls.modify id (·.toPhase phase)⟩
  | .ask id w => do
      let call ← s.calls[id]?
      match call.phase with
      | .asking enabled =>
          let phase := call.toFetchArgs.ask px s.executor.cryptographyThreshold enabled w
          some { s with calls := s.calls.modify id (·.toPhase phase) }
      | _ => none
  | .evict key =>
      some { s with executor := s.executor.withCache (s.executor.secretsCache.delete key) }
  | .garbageCollect =>
      some { s with
        executor := s.executor.withCache (s.executor.secretsCache.garbageCollect l.now).1 }
  | .reconfigure enabled initialized threshold =>
      some { s with executor := { s.executor with
        enableSecretsCache := enabled
        vaultInitialized := initialized
        cryptographyThreshold := threshold } }

/-! ## What a step does -/

/-- The accesses of a call to the cache, with what they leave there and where the call is
afterwards. -/
inductive FetchCall.Proceeds (crypto : Crypto) (now : Int) (cache : Cache Bytes32 CachedEDKS)
    (call : FetchCall) : Cache Bytes32 CachedEDKS → FetchPhase → Prop
  | read {cached cached' : Slice CachedEDKS} {secret : SecretIdentifier}
      {todo : List SecretIdentifier} {entry : CachedEDKS} (fits fits') :
    call.phase = .reading cached (secret :: todo) fits →
    cache.get now ((call.identity secret).cacheKey crypto) = some entry →
    cached'.data = cached.data ++ [entry] →
    Proceeds crypto now cache call cache (.reading cached' todo fits')
  | serve {cached : Slice CachedEDKS} (fits) :
    call.phase = .reading cached [] fits → cachedPublicKeysMatch cached.data = true →
    Proceeds crypto now cache call cache (.served cached)
  | miss {cached : Slice CachedEDKS} {todo : List SecretIdentifier} (fits) :
    call.phase = .reading cached todo fits →
    Proceeds crypto now cache call cache (.asking true)
  | store {secret : SecretIdentifier} {material : Material}
      {todo : List (SecretIdentifier × Material)} {found : EncryptedSecrets} :
    call.phase = .storing ((secret, material) :: todo) found →
    Proceeds crypto now cache call
      (cache.set now ((call.identity secret).cacheKey crypto)
        ⟨material.1, material.2, found.rawVaultPublicKey⟩ none) (.storing todo found)
  | finish {found : EncryptedSecrets} :
    call.phase = .storing [] found → Proceeds crypto now cache call cache (.fetched found)

section

variable {px : ExecutorPlatform} {crypto : Crypto} {now : Int} {s₀ s s' : FetchState}
  {l : FetchLabel} {ls : List FetchLabel} {call : FetchCall}

theorem proceed_some {cache cache' : Cache Bytes32 CachedEDKS} {phase : FetchPhase}
    (moved : call.proceed crypto now cache = some (cache', phase)) :
    call.Proceeds crypto now cache cache' phase := by
  unfold FetchCall.proceed at moved
  split at moved
  · rename_i cached fits at_
    obtain ⟨rfl, rfl⟩ := Prod.mk.inj (Option.some.inj moved)
    split
    · rename_i agree
      exact .serve fits at_ agree
    · exact .miss fits at_
  · rename_i cached secret todo fits at_
    split at moved
    · obtain ⟨rfl, rfl⟩ := Prod.mk.inj (Option.some.inj moved)
      exact .miss fits at_
    · rename_i entry found
      obtain ⟨rfl, rfl⟩ := Prod.mk.inj (Option.some.inj moved)
      exact .read fits _ at_ found rfl
  · rename_i found at_
    obtain ⟨rfl, rfl⟩ := Prod.mk.inj (Option.some.inj moved)
    exact .finish at_
  · rename_i secret material todo found at_
    obtain ⟨rfl, rfl⟩ := Prod.mk.inj (Option.some.inj moved)
    exact .store at_
  · cases moved

/-- The steps, seen from the cache and from the calls. -/
theorem step_cases (taken : s.step px l = some s') :
    (∃ args, l.action = .start args ∧ s'.executor = s.executor ∧
      s'.calls = s.calls ++ [⟨args, s.executor.startFetch px args⟩]) ∨
    (∃ id call cache phase, l.action = .proceed id ∧ s.calls[id]? = some call ∧
      call.Proceeds px.toCrypto l.now s.executor.secretsCache cache phase ∧
      s'.executor.secretsCache = cache ∧ s'.calls = s.calls.modify id (·.toPhase phase)) ∨
    (∃ id w call enabled, l.action = .ask id w ∧ s.calls[id]? = some call ∧
      call.phase = .asking enabled ∧ s'.executor = s.executor ∧
      s'.calls = s.calls.modify id (·.toPhase
        (call.toFetchArgs.ask px s.executor.cryptographyThreshold enabled w))) ∨
    ((∀ key item, s'.executor.secretsCache.items.lookup key = some item →
        s.executor.secretsCache.items.lookup key = some item) ∧
      (∀ args, l.action ≠ .start args) ∧ s'.calls = s.calls) := by
  obtain ⟨now, action⟩ := l
  cases action with
  | start args =>
      cases Option.some.inj taken
      exact Or.inl ⟨args, rfl, rfl, rfl⟩
  | proceed id =>
      obtain ⟨call, found, taken⟩ := Option.bind_eq_some_iff.mp taken
      obtain ⟨⟨cache, phase⟩, moved, taken⟩ := Option.bind_eq_some_iff.mp taken
      cases Option.some.inj taken
      exact Or.inr (Or.inl ⟨id, call, cache, phase, rfl, found, proceed_some moved, rfl, rfl⟩)
  | ask id w =>
      obtain ⟨call, found, taken⟩ := Option.bind_eq_some_iff.mp taken
      split at taken
      · rename_i enabled at_
        cases Option.some.inj taken
        exact Or.inr (Or.inr (Or.inl ⟨id, w, call, enabled, rfl, found, at_, rfl, rfl⟩))
      · cases taken
  | evict key =>
      cases Option.some.inj taken
      refine Or.inr (Or.inr (Or.inr ⟨fun key' item found => ?_, fun _ other => ?_, rfl⟩))
      · have kept : (s.executor.secretsCache.delete key).items.lookup key' = some item := found
        rw [Cache.lookup_delete] at kept
        split at kept
        · cases kept
        · exact kept
      · cases other
  | garbageCollect =>
      cases Option.some.inj taken
      refine Or.inr (Or.inr (Or.inr ⟨fun key item found => ?_, fun _ other => ?_, rfl⟩))
      · exact Cache.lookup_of_garbageCollect found
      · cases other
  | reconfigure enabled initialized threshold =>
      cases Option.some.inj taken
      refine Or.inr (Or.inr (Or.inr ⟨fun _ _ found => found, fun _ other => ?_, rfl⟩))
      cases other

end

end ConfidentialCompute
