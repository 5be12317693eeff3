import ConfidentialCompute.Executor.CacheSteps
import ConfidentialCompute.Executor.Matching

/-!
# What the executor's cache serves

Where the entries come from that a call of `GetEncryptedDecryptionShares` is served, over runs
of such calls. The cache key of an entry is the digest of a text in which the ephemeral key, the
key and the namespace of the secret and the owner stand one after the other, with a separator
between them that each of the last three may contain.
-/

namespace ConfidentialCompute

open Go Runs

/-! ## Where an entry comes from -/

/-- The step stores the entry for `q`. -/
def Stores (s : FetchState) (l : FetchLabel) (q : CacheIdentity) (entry : CachedEDKS) : Prop :=
  ∃ id call secret material todo found, l.action = .proceed id ∧ s.calls[id]? = some call ∧
    call.phase = .storing ((secret, material) :: todo) found ∧ q = call.identity secret ∧
    entry = ⟨material.1, material.2, found.rawVaultPublicKey⟩

/-- A step of the run has stored the entry for `q`. -/
def Stored (px : ExecutorPlatform) (s₀ : FetchState) (ls : List FetchLabel) (q : CacheIdentity)
    (entry : CachedEDKS) : Prop :=
  ∃ pre s l s', StepOf (FetchState.step px) anyStep s₀ ls pre s l s' ∧ Stores s l q entry

/-- A step of the run has stored the entry under the cache key. -/
def StoredUnder (px : ExecutorPlatform) (s₀ : FetchState) (ls : List FetchLabel) (key : Bytes32)
    (entry : CachedEDKS) : Prop :=
  ∃ q, q.cacheKey px.toCrypto = key ∧ Stored px s₀ ls q entry

/-- What a call has read so far is related to the secrets it has read it for. -/
def FetchPhase.ReadFor (R : SecretIdentifier → CachedEDKS → Prop)
    (secrets : List SecretIdentifier) : FetchPhase → Prop
  | .reading cached todo _ => ∃ done, secrets = done ++ todo ∧ List.Forall₂ R done cached.data
  | .served entries =>
      List.Forall₂ R secrets entries.data ∧ cachedPublicKeysMatch entries.data = true
  | _ => True

/-- Every entry that is in the cache or has been read was stored under its cache key. -/
structure Traced (px : ExecutorPlatform) (s₀ : FetchState) (ls : List FetchLabel)
    (s : FetchState) : Prop where
  cache : ∀ key item, s.executor.secretsCache.items.lookup key = some item →
    StoredUnder px s₀ ls key item.value
  calls : ∀ (id : Nat) (call : FetchCall), s.calls[id]? = some call →
    call.phase.ReadFor (fun secret =>
      StoredUnder px s₀ ls ((call.identity secret).cacheKey px.toCrypto)) call.secrets.data

section

variable {px : ExecutorPlatform} {s₀ s s' : FetchState} {l : FetchLabel} {ls : List FetchLabel}
  {call : FetchCall} {key : Bytes32} {entry : CachedEDKS}

theorem StoredUnder.append (stored : StoredUnder px s₀ ls key entry) (l : FetchLabel) :
    StoredUnder px s₀ (ls ++ [l]) key entry := by
  obtain ⟨q, isKey, pre, s, l', s', isStep, stores⟩ := stored
  exact ⟨q, isKey, pre, s, l', s', isStep.append [l], stores⟩

theorem FetchPhase.ReadFor.imp {R S : SecretIdentifier → CachedEDKS → Prop}
    {secrets : List SecretIdentifier} {phase : FetchPhase}
    (implies : ∀ secret entry, R secret entry → S secret entry)
    (readFor : phase.ReadFor R secrets) : phase.ReadFor S secrets := by
  cases phase with
  | reading cached todo fits =>
      obtain ⟨done, split, all⟩ := readFor
      exact ⟨done, split, all.imp implies⟩
  | served entries => exact ⟨readFor.1.imp implies, readFor.2⟩
  | _ => trivial

theorem readFor_startFetch (R : SecretIdentifier → CachedEDKS → Prop) (e : Executor)
    (args : FetchArgs) : (e.startFetch px args).ReadFor R args.secrets.data := by
  unfold Executor.startFetch
  split
  · trivial
  · split
    · trivial
    · split
      · trivial
      · split
        · exact ⟨[], rfl, .nil⟩
        · trivial

theorem readFor_ask (R : SecretIdentifier → CachedEDKS → Prop) (threshold : Int)
    (args : FetchArgs) (enabled : Bool) (w : VaultWorld) (secrets : List SecretIdentifier) :
    (args.ask px threshold enabled w).ReadFor R secrets := by
  unfold FetchArgs.ask
  split
  · trivial
  · split
    · trivial
    · split <;> trivial

/-- The trace survives a step that changes neither the cache nor a call. -/
theorem Traced.append (traced : Traced px s₀ ls s) (l : FetchLabel) :
    Traced px s₀ (ls ++ [l]) s where
  cache key item found := (traced.cache key item found).append l
  calls id call found := (traced.calls id call found).imp fun _ _ stored => stored.append l

/-- What a call reads from a traced cache has been stored under the key it asked for. -/
theorem Traced.get (traced : Traced px s₀ ls s) {now : Int}
    (found : s.executor.secretsCache.get now key = some entry) :
    StoredUnder px s₀ ls key entry := by
  obtain ⟨item, isItem, _, rfl⟩ := Cache.get_eq_some_iff.mp found
  exact traced.cache key item isItem

theorem Traced.proceed (traced : Traced px s₀ ls s) {now : Int}
    {cache : Cache Bytes32 CachedEDKS} {phase : FetchPhase} {id : Nat}
    (found : s.calls[id]? = some call)
    (moved : call.Proceeds px.toCrypto now s.executor.secretsCache cache phase) :
    phase.ReadFor (fun secret =>
      StoredUnder px s₀ ls ((call.identity secret).cacheKey px.toCrypto)) call.secrets.data := by
  have before := traced.calls id call found
  cases moved with
  | read fits fits' at_ got pushed =>
      rw [at_] at before
      obtain ⟨done, split, all⟩ := before
      refine ⟨done ++ [_], by rw [split, List.append_assoc]; rfl, ?_⟩
      rw [pushed]
      exact List.rel_append all (.cons (traced.get got) .nil)
  | serve fits at_ agree =>
      rw [at_] at before
      obtain ⟨done, split, all⟩ := before
      rw [List.append_nil] at split
      exact ⟨split ▸ all, agree⟩
  | _ => trivial

theorem Traced.step (run : Run (FetchState.step px) anyStep s₀ ls s) (traced : Traced px s₀ ls s)
    (taken : s.step px l = some s') : Traced px s₀ (ls ++ [l]) s' := by
  have later := traced.append l
  rcases step_cases taken with ⟨args, _, sameExecutor, calls⟩ |
    ⟨id, call, cache, phase, isAction, found, moved, isCache, calls⟩ |
    ⟨id, w, call, enabled, _, found, _, sameExecutor, calls⟩ | ⟨kept, _, calls⟩
  · constructor
    · rw [sameExecutor]
      exact later.cache
    · rw [calls]
      exact Heap.forall_alloc later.calls (readFor_startFetch _ _ _)
  · constructor
    · rw [isCache]
      cases moved with
      | @store secret material todo found' at_ =>
          intro key item inCache
          rcases Cache.of_lookup_set inCache with ⟨isKey, isValue⟩ | old
          · have stores : Stores s l (call.identity secret) item.value :=
              ⟨id, call, secret, material, todo, found', isAction, found, at_, rfl, isValue⟩
            exact ⟨call.identity secret, isKey.symm, ls, s, l, s', .last run trivial taken, stores⟩
          · exact later.cache key item old
      | _ => exact later.cache
    · rw [calls]
      refine Heap.forall_modify later.calls fun old found' => ?_
      cases found.symm.trans found'
      have readFor := later.proceed found moved
      exact readFor
  · constructor
    · rw [sameExecutor]
      exact later.cache
    · rw [calls]
      exact Heap.forall_modify later.calls fun old _ => readFor_ask _ _ _ _ _ _
  · constructor
    · intro key item inCache
      exact later.cache key item (kept key item inCache)
    · rw [calls]
      exact later.calls

/-- The run starts with an empty cache and before any call. -/
def FetchState.initial (e : Executor) : FetchState := ⟨e, []⟩

theorem traced_of_run {e : Executor} (empty : e.secretsCache.items = ∅)
    (run : Run (FetchState.step px) anyStep (.initial e) ls s) :
    Traced px (.initial e) ls s := by
  refine Run.invariant_history ?_ ?_ run
  · constructor
    · intro key item found
      have none_ : e.secretsCache.items.lookup key = none := by
        rw [empty]
        exact Finmap.lookup_empty key
      cases none_.symm.trans found
    · intro id call found
      cases found
  · intro ls s l s' before traced _ taken
    exact traced.step before taken

end

/-! ## What has been fetched -/

/-- An answer of the vault in the run holds the ciphertext and the shares, and carries the
key. -/
def FetchedUnder (ls : List FetchLabel) (rawVaultPublicKey ciphertext : Slice UInt8)
    (shares : Slice (Slice UInt8)) : Prop :=
  ∃ l ∈ ls, ∃ id w out, l.action = .ask id w ∧ w.answer = .response out ∧
    decodeVaultPublicKey out.rawVaultPublicKey = .ok rawVaultPublicKey ∧
    ∃ resp ∈ out.responses.data, resp.Holds ciphertext shares

/-- All of the ciphertexts and shares were fetched under the key they come with. -/
def EncryptedSecrets.OfOneKey (found : EncryptedSecrets) (ls : List FetchLabel) : Prop :=
  List.Forall₂ (FetchedUnder ls found.rawVaultPublicKey) found.encryptedSecrets.data
    found.encryptedDecryptionShares.data

/-- What a call has fetched, and what it has still to store of it. -/
def FetchPhase.Fetched (ls : List FetchLabel) (args : FetchArgs) : FetchPhase → Prop
  | .storing todo found => found.OfOneKey ls ∧ ∀ entry ∈ todo, entry ∈ args.toStore found
  | .fetched found => found.OfOneKey ls
  | _ => True

def FetchState.Fetched (s : FetchState) (ls : List FetchLabel) : Prop :=
  ∀ (id : Nat) (call : FetchCall), s.calls[id]? = some call →
    call.phase.Fetched ls call.toFetchArgs

section

variable {px : ExecutorPlatform} {s₀ s s' : FetchState} {l : FetchLabel} {ls : List FetchLabel}
  {call : FetchCall} {args : FetchArgs}

theorem FetchedUnder.append {key ciphertext : Slice UInt8} {shares : Slice (Slice UInt8)}
    (fetched : FetchedUnder ls key ciphertext shares) (more : List FetchLabel) :
    FetchedUnder (ls ++ more) key ciphertext shares := by
  obtain ⟨l, among, answered⟩ := fetched
  exact ⟨l, List.mem_append_left _ among, answered⟩

theorem EncryptedSecrets.OfOneKey.append {found : EncryptedSecrets} (oneKey : found.OfOneKey ls)
    (more : List FetchLabel) : found.OfOneKey (ls ++ more) :=
  oneKey.imp fun _ _ fetched => fetched.append more

theorem FetchPhase.Fetched.append {phase : FetchPhase} (fetched : phase.Fetched ls args)
    (more : List FetchLabel) : phase.Fetched (ls ++ more) args := by
  cases phase with
  | storing todo found => exact ⟨fetched.1.append more, fetched.2⟩
  | fetched found => exact EncryptedSecrets.OfOneKey.append fetched more
  | _ => trivial

theorem ofOneKey_of_evaluate {threshold : Int} {requests : Slice Vault.SecretRequest}
    {out : Vault.GetSecretsResponse} {found : EncryptedSecrets} {id : Nat} {w : VaultWorld}
    (asked : l.action = .ask id w) (answered : w.answer = .response out)
    (ok : evaluate threshold requests out = .ok found) : found.OfOneKey (ls ++ [l]) := by
  obtain ⟨decoded, _, material, taken, isSecrets, isShares⟩ := evaluate_ok ok
  unfold EncryptedSecrets.OfOneKey
  rw [isSecrets, isShares]
  refine List.forall₂_map_left_iff.mpr (List.forall₂_map_right_iff.mpr
    (List.forall₂_same.mpr fun entry among => ?_))
  obtain ⟨req, _, resp, matching, held⟩ := exists_of_forall₂ taken among
  exact ⟨l, List.mem_append_right _ List.mem_cons_self, id, w, out, asked, answered,
    decoded, resp, List.mem_of_find?_eq_some (matchingResponse_ok matching),
    secretMaterial_ok held⟩

theorem fetched_ask {threshold : Int} {enabled : Bool} {id : Nat} {w : VaultWorld}
    (asked : l.action = .ask id w) :
    (args.ask px threshold enabled w).Fetched (ls ++ [l]) args := by
  unfold FetchArgs.ask
  split
  · trivial
  · split
    · trivial
    · rename_i found evaluated
      obtain ⟨out, answered, ok⟩ := response_of_evaluate evaluated
      have oneKey : found.OfOneKey (ls ++ [l]) := ofOneKey_of_evaluate asked answered ok
      split
      · exact ⟨oneKey, fun _ among => among⟩
      · exact oneKey

theorem fetched_startFetch (e : Executor) (args : FetchArgs) :
    (e.startFetch px args).Fetched ls args := by
  unfold Executor.startFetch
  split
  · trivial
  · split
    · trivial
    · split
      · trivial
      · split <;> trivial

theorem FetchPhase.Fetched.proceed {crypto : Crypto} {now : Int}
    {cache cache' : Cache Bytes32 CachedEDKS} {phase : FetchPhase}
    (fetched : call.phase.Fetched ls call.toFetchArgs)
    (moved : call.Proceeds crypto now cache cache' phase) :
    phase.Fetched ls call.toFetchArgs := by
  cases moved with
  | store at_ =>
      rw [at_] at fetched
      exact ⟨fetched.1, fun entry among => fetched.2 entry (List.mem_cons_of_mem _ among)⟩
  | finish at_ =>
      rw [at_] at fetched
      exact fetched.1
  | _ => trivial

theorem fetched_of_run {e : Executor}
    (run : Run (FetchState.step px) anyStep (.initial e) ls s) : s.Fetched ls := by
  apply run.invariant_history
  · intro id call found
    cases found
  · intro ls s l s' _ before _ taken
    have later : s.Fetched (ls ++ [l]) := fun id call found => (before id call found).append [l]
    unfold FetchState.Fetched
    rcases step_cases taken with ⟨args, _, _, calls⟩ |
      ⟨id, call, cache, phase, _, found, moved, _, calls⟩ |
      ⟨id, w, call, enabled, asked, found, _, _, calls⟩ | ⟨_, _, calls⟩
    · rw [calls]
      exact Heap.forall_alloc later (fetched_startFetch _ _)
    · rw [calls]
      refine Heap.forall_modify later fun old found' => ?_
      cases found.symm.trans found'
      have next := (later id call found).proceed moved
      exact next
    · rw [calls]
      refine Heap.forall_modify later fun old found' => ?_
      cases found.symm.trans found'
      have next : (call.toFetchArgs.ask px s.executor.cryptographyThreshold enabled w).Fetched
          (ls ++ [l]) call.toFetchArgs := fetched_ask asked
      exact next
    · rw [calls]
      exact later

end

namespace Sample

def fetchLabel (action : FetchAction) : FetchLabel := ⟨0, action⟩

/-- Secrets are asked for under the keypair of the sample server. -/
def fetchArgs (secrets : Slice SecretIdentifier) : FetchArgs := ⟨secrets, signer 9, metadata⟩

/-- A secret is fetched from the vault and stored. -/
def fetching (id : Nat) (secret : SecretIdentifier) (w : VaultWorld) : List FetchLabel :=
  [.start (fetchArgs (one secret)), .proceed id, .ask id w, .proceed id, .proceed id].map fetchLabel

def served (id : Nat) (secrets : Slice SecretIdentifier) : List FetchLabel :=
  fetchLabel (.start (fetchArgs secrets)) ::
    List.replicate (secrets.length + 1) (fetchLabel (.proceed id))

def otherSecret : SecretIdentifier := ⟨otherKey, ∅⟩

def mixed : Slice SecretIdentifier := ⟨[secretOf 1, otherSecret], by decide⟩

/-- Two secrets are fetched one after the other, and then asked for together. -/
def fetchedApart : List FetchLabel :=
  fetching 0 (secretOf 1) (vaultHolds 1) ++
    fetching 1 otherSecret (vaultAnswering (one (responseOf ⟨otherSecret.key, ∅, ∅⟩ 2))) ++
    served 2 mixed

def servedEntries : FetchPhase → Option (Slice CachedEDKS)
  | .served entries => some entries
  | _ => none

/-- The call has asked for the secrets and has been served an entry for each. -/
def Serves (id : Nat) (secrets : Slice SecretIdentifier) (s : FetchState) : Bool :=
  (s.calls[id]?).any fun call =>
    decide (call.identities = (fetchArgs secrets).identities) &&
      (servedEntries call.phase).any fun entries => entries.length = secrets.length

theorem call_of_serves {id : Nat} {secrets : Slice SecretIdentifier} {s : FetchState}
    (serves : Serves id secrets s = true) :
    ∃ call entries, s.calls[id]? = some call ∧ call.identities = (fetchArgs secrets).identities ∧
      call.phase = .served entries ∧ entries.length = secrets.length := by
  obtain ⟨call, found, facts⟩ := (Option.any_eq_true _ _).mp serves
  obtain ⟨asked, facts⟩ := (Bool.and_eq_true _ _).mp facts
  obtain ⟨entries, isServed, all⟩ := (Option.any_eq_true _ _).mp facts
  have phase : call.phase = .served entries := by
    generalize call.phase = phase at isServed
    cases phase with
    | served entries' => exact congrArg FetchPhase.served (Option.some.inj isServed)
    | _ => cases isServed
  exact ⟨call, entries, found, of_decide_eq_true asked, phase, of_decide_eq_true all⟩

end Sample

section

open Sample

end

/-! ## Whom an entry is served to -/

def FetchAction.identities : FetchAction → List CacheIdentity
  | .start args => args.identities
  | _ => []

/-- What has been asked for so far. -/
def FetchState.identities (s : FetchState) : List CacheIdentity :=
  (s.calls.map (·.toFetchArgs)).flatMap FetchArgs.identities

/-- No two of the identities share a cache text. -/
def Apart (qs : List CacheIdentity) : Prop := ∀ a ∈ qs, ∀ b ∈ qs, a.text = b.text → a = b

instance (qs : List CacheIdentity) : Decidable (Apart qs) :=
  inferInstanceAs (Decidable (∀ a ∈ qs, ∀ b ∈ qs, a.text = b.text → a = b))

/-- What a call asks for does not share a cache text with anything else that it asks for or
that was asked for before. -/
def NoSharedText (s : FetchState) (l : FetchLabel) : Prop :=
  Apart (s.identities ++ l.action.identities)

instance (s : FetchState) (l : FetchLabel) : Decidable (NoSharedText s l) :=
  inferInstanceAs (Decidable (Apart _))

/-- The separator of the cache text. -/
def separator : UInt8 := 45

/-- Key and namespace are free of the separator. -/
def CacheIdentity.Plain (q : CacheIdentity) : Prop :=
  separator ∉ q.secret.key.data ∧ separator ∉ q.secret.secretNamespace.data

theorem CacheIdentity.text_eq (q : CacheIdentity) :
    q.text = Hex.encode q.publicKey.data ++ separator :: (q.secret.key.data ++ separator ::
      (q.secret.secretNamespace.data ++ separator :: q.workflowOwner.data)) := by
  have dash : ascii "-" = [separator] := by decide
  unfold CacheIdentity.text secretCacheText
  rw [dash]
  simp only [List.append_assoc, List.cons_append, List.nil_append]

/-- The text of a plain identity is read from the left, field by field. -/
theorem CacheIdentity.Plain.text_inj {a b : CacheIdentity} (plainA : a.Plain) (plainB : b.Plain)
    (same : a.text = b.text) : a = b := by
  rw [text_eq, text_eq] at same
  have noDash : ∀ bytes, separator ∉ Hex.encode bytes := Hex.notMem_encode (by decide)
  obtain ⟨hexes, same⟩ := Encoding.append_separator_inj (noDash _) (noDash _) same
  obtain ⟨keys, same⟩ := Encoding.append_separator_inj plainA.1 plainB.1 same
  obtain ⟨namespaces, owners⟩ := Encoding.append_separator_inj plainA.2 plainB.2 same
  obtain ⟨publicKeyA, ⟨keyA, namespaceA⟩, ownerA⟩ := a
  obtain ⟨publicKeyB, ⟨keyB, namespaceB⟩, ownerB⟩ := b
  cases Slice.data_injective (Hex.encode_injective hexes)
  cases Slice.data_injective keys
  cases Slice.data_injective namespaces
  cases Slice.data_injective owners
  rfl

theorem apart_of_plain {qs : List CacheIdentity} (plain : ∀ q ∈ qs, q.Plain) : Apart qs :=
  fun a among b among' same => (plain a among).text_inj (plain b among') same

section

variable {px : ExecutorPlatform} {ok : FetchState → FetchLabel → Prop} {s₀ s s' : FetchState}
  {l : FetchLabel} {ls : List FetchLabel} {call : FetchCall}

theorem args_modify (calls : List FetchCall) (id : Nat) (phase : FetchPhase) :
    (calls.modify id (·.toPhase phase)).map (·.toFetchArgs) = calls.map (·.toFetchArgs) := by
  induction calls generalizing id with
  | nil => cases id <;> rfl
  | cons call calls ih =>
      cases id with
      | zero => rfl
      | succ id =>
          rw [List.modify_succ_cons, List.map_cons, List.map_cons, ih]

theorem identities_step (taken : s.step px l = some s') :
    s'.identities = s.identities ++ l.action.identities := by
  unfold FetchState.identities
  rcases step_cases taken with ⟨args, isStart, _, calls⟩ |
    ⟨id, call, cache, phase, isProceed, _, _, _, calls⟩ |
    ⟨id, w, call, enabled, isAsk, _, _, _, calls⟩ | ⟨_, noStart, calls⟩
  · rw [calls, isStart]
    simp [FetchAction.identities]
  · rw [calls, isProceed, args_modify]
    simp [FetchAction.identities]
  · rw [calls, isAsk, args_modify]
    simp [FetchAction.identities]
  · rw [calls]
    cases isAction : l.action with
    | start args => exact (noStart args isAction).elim
    | _ => simp [FetchAction.identities]

theorem identities_of_run (run : Run (FetchState.step px) ok s₀ ls s) :
    s.identities = s₀.identities ++ ls.flatMap (·.action.identities) := by
  induction run with
  | nil => simp
  | snoc _ _ taken ih => rw [identities_step taken, ih]; simp

theorem apart_of_run {e : Executor}
    (run : Run (FetchState.step px) NoSharedText (.initial e) ls s) : Apart s.identities := by
  apply run.invariant
  · intro q among
    cases among
  · intro s l s' _ noShared taken
    rw [identities_step taken]
    exact noShared

theorem mem_identities_of_stored {e : Executor} {q : CacheIdentity} {entry : CachedEDKS}
    (run : Run (FetchState.step px) ok (.initial e) ls s)
    (stored : Stored px (.initial e) ls q entry) : q ∈ s.identities := by
  obtain ⟨pre, s₁, l, s₂, ⟨⟨post, split⟩, before, _, _⟩, id, call, secret, material, todo, found,
    _, atCall, at_, isIdentity, _⟩ := stored
  have asked : q ∈ s₁.identities := by
    have fetched := fetched_of_run before id call atCall
    rw [at_] at fetched
    have isSecret := (List.of_mem_zip (fetched.2 _ List.mem_cons_self)).1
    rw [isIdentity]
    exact List.mem_flatMap.mpr ⟨call.toFetchArgs,
      List.mem_map_of_mem (List.mem_of_getElem? atCall), List.mem_map_of_mem isSecret⟩
  rw [identities_of_run before] at asked
  rw [identities_of_run run, split, List.flatMap_append, ← List.append_assoc]
  exact List.mem_append_left _ asked

end

/-- Any run from an empty cache in which no two of the ephemeral key, secret and owner asked for
share a cache text. Every entry that a call is served was stored by a step of the run for the
same ephemeral key, secret and owner. -/
theorem served_to_owner (px : ExecutorPlatform) (e : Executor)
    (empty : e.secretsCache.items = ∅) (ls : List FetchLabel) (s : FetchState)
    (run : Run (FetchState.step px) NoSharedText (.initial e) ls s)
    (collisionFree : px.toCrypto.CollisionFree {text | ∃ q ∈ s.identities, q.text = text})
    (id : Nat) (call : FetchCall) (isCall : s.calls[id]? = some call)
    (entries : Slice CachedEDKS) (served : call.phase = .served entries) :
    List.Forall₂ (fun secret => Stored px (.initial e) ls (call.identity secret))
      call.secrets.data entries.data := by
  have traced := (traced_of_run empty run.any).calls id call isCall
  rw [served] at traced
  refine List.forall₂_iff_zip.mpr ⟨traced.1.length_eq, fun {secret entry} among => ?_⟩
  obtain ⟨q, sameKey, stored⟩ := List.forall₂_zip traced.1 among
  have asked : call.identity secret ∈ s.identities :=
    List.mem_flatMap.mpr ⟨call.toFetchArgs, List.mem_map_of_mem (List.mem_of_getElem? isCall),
      List.mem_map_of_mem (List.of_mem_zip among).1⟩
  have asked' := mem_identities_of_stored run stored
  have sameText := collisionFree q.text ⟨q, asked', rfl⟩ _ ⟨_, asked, rfl⟩ sameKey
  rw [← apart_of_run run q asked' _ asked sameText]
  exact stored

namespace Sample

/-- The identity that a step stores an entry for. -/
def storedFor (s : FetchState) (l : FetchLabel) : Option CacheIdentity :=
  match l.action with
  | .proceed id => (s.calls[id]?).bind fun call =>
      match call.phase with
      | .storing ((secret, _) :: _) _ => some (call.identity secret)
      | _ => none
  | _ => none

theorem storedFor_of_stores {s : FetchState} {l : FetchLabel} {q : CacheIdentity}
    {entry : CachedEDKS} (stores : Stores s l q entry) : storedFor s l = some q := by
  obtain ⟨id, call, secret, material, todo, found, isAction, isCall, at_, isIdentity, _⟩ := stores
  unfold storedFor
  rw [isAction]
  dsimp only
  rw [isCall, Option.bind_some, at_, isIdentity]

/-- The secret with the key `k` and the separator as its namespace. -/
def dashed : SecretIdentifier := secretOf separator

/-- The secret whose key ends in the separator, and that has no namespace. -/
def dashedKey : SecretIdentifier := ⟨⟨secretKey.data ++ [separator], by decide⟩, ∅⟩

/-- The first is fetched, and then the second is asked for. -/
def separated : List FetchLabel := fetching 0 dashed (vaultHolds 1) ++ served 1 (one dashedKey)

end Sample

section

open Sample

/-- Two secrets are fetched by different calls, and a third call for both is served what was stored
for each of them. -/
theorem served_to_owner_two_secrets :
    ∃ s call entries, Run (FetchState.step executorPlatform) NoSharedText (.initial executor)
        fetchedApart s ∧ s.calls[2]? = some call ∧ call.phase = .served entries ∧
      entries.length = 2 ∧
      List.Forall₂ (fun secret => Stored executorPlatform (.initial executor) fetchedApart
        (call.identity secret)) call.secrets.data entries.data := by
  have reached : ∃ s, Run (FetchState.step executorPlatform) NoSharedText (.initial executor)
      fetchedApart s ∧ Serves 2 mixed s = true :=
    Run.exists_of_exec (by decide +kernel)
  obtain ⟨s, run, serves⟩ := reached
  obtain ⟨call, entries, isCall, _, isServed, all⟩ := call_of_serves serves
  refine ⟨s, call, entries, run, isCall, isServed, all,
    served_to_owner executorPlatform executor rfl _ s run ?_ 2 call isCall entries isServed⟩
  have apart : ∀ q ∈ s.identities, ∀ q' ∈ s.identities,
      executorPlatform.sha256 q.text = executorPlatform.sha256 q'.text → q.text = q'.text := by
    rw [identities_of_run run]
    decide +kernel
  rintro _ ⟨q, among, rfl⟩ _ ⟨q', among', rfl⟩
  exact apart q among q' among'

/-- The key `k` in the namespace `-` and the key `k-` without a namespace share a cache text:
the second is served what was stored for the first. -/
theorem served_across_identities :
    ∃ s call entries, Run (FetchState.step executorPlatform) anyStep (.initial executor)
        separated s ∧ s.calls[1]? = some call ∧ call.phase = .served entries ∧
      ¬ List.Forall₂ (fun secret => Stored executorPlatform (.initial executor) separated
        (call.identity secret)) call.secrets.data entries.data := by
  have reached : ∃ s, Run (FetchState.step executorPlatform) anyStep (.initial executor)
      separated s ∧ Serves 1 (one dashedKey) s = true :=
    Run.exists_of_exec (by decide +kernel)
  have others : ∀ v ∈ visited (FetchState.step executorPlatform) (.initial executor)
      separated, storedFor v.1 v.2 ≠ some ⟨signer 9, dashedKey, metadata.workflowOwner⟩ := by
    decide +kernel
  obtain ⟨s, run, serves⟩ := reached
  obtain ⟨call, entries, isCall, asked, isServed, isOne⟩ := call_of_serves serves
  refine ⟨s, call, entries, run, isCall, isServed, fun all => ?_⟩
  have nonempty : 0 < entries.length := by
    rw [isOne]
    exact Nat.one_pos
  obtain ⟨entry, among⟩ := List.exists_mem_of_length_pos nonempty
  obtain ⟨secret, isSecret, _, s₁, l, _, isStep, stores⟩ := exists_of_forall₂ all among
  have isIdentity : call.identity secret ∈ call.identities := List.mem_map_of_mem isSecret
  rw [asked] at isIdentity
  rw [List.mem_singleton.mp isIdentity] at stores
  exact others _ isStep.mem_visited (storedFor_of_stores stores)

end

end ConfidentialCompute
