import ConfidentialCompute.Executor.Retry
import ConfidentialCompute.Executor.Matching

/-!
# The reference IDs of the vault requests

The vault tells the requests of one execution apart by their reference IDs. The first one has
that of the caller, and an attempt that follows a request numbers its own. What the code counts
are not the requests: it counts the attempts that got as far as `GetEncryptedDecryptionShares`,
which sends nothing if there are no secrets, if all of them are cached, or if the request cannot
be put together. Both are said of what an attempt finds, `AttemptWorld.reaches` and
`AttemptWorld.sends`.
-/

namespace ConfidentialCompute

open Go

/-! ## What an attempt finds -/

/-- The parameters of the enclave, when the refresh has succeeded and there are any. -/
def AttemptWorld.params (px : ExecutorPlatform) (call : ExecuteCall) (w : AttemptWorld) :
    Option EnclaveParams :=
  let refreshed := ensureFreshEnclaves px.toCrypto call.authHeader w.refreshState w.refresh
  match refreshed.result with
  | .error _ => none
  | .ok () =>
      match getEnclaveParams refreshed.state.membership
          (px.sha256 call.metadata.workflowExecutionID.data) w.publicKeys with
      | .ok params => some params
      | .err _ | .panicked => none

/-- The attempt calls `GetEncryptedDecryptionShares`. -/
def AttemptWorld.reaches (px : ExecutorPlatform) (call : ExecuteCall) (w : AttemptWorld) : Bool :=
  (w.params px call).isSome

def DONBinding.binds : DONBinding → Bool
  | .disabled | .bound _ => true
  | .settingUnreadable _ | .localNodeUnknown _ => false

/-- A request is sent: there are secrets, not all of them are cached, there is a vault, and the
request can be put together. -/
def Executor.asks (px : ExecutorPlatform) (e : Executor) (now : Int)
    (secrets : Slice SecretIdentifier) (publicKey : Slice UInt8) (workflowOwner : GoString)
    (w : VaultWorld) : Bool :=
  px.loggable publicKey && secrets.length != 0 && e.vaultInitialized &&
    (e.cachedBatch px.toCrypto now publicKey workflowOwner secrets).isNone &&
    (w.marshalError.isNone && w.binding.binds)

def AttemptWorld.sends (px : ExecutorPlatform) (call : ExecuteCall) (w : AttemptWorld) : Bool :=
  (w.params px call).any fun params => w.executor.asks px w.now call.secrets
    params.enclaveEphemeralPublicKey call.metadata.workflowOwner w.vault

/-- The requests that were passed to the vault capability. -/
def sentRequests (attempts : List AttemptResult) : List VaultRequest :=
  attempts.filterMap (·.sent)

/-- The caller's reference ID, and then the numbered ones. -/
def referenceFor (call : ExecuteCall) : Nat → GoString
  | 0 => call.metadata.referenceID
  | k + 1 => retryReference (k + 1)

/-- Attempt `i` is made: all before it have failed. -/
def ExecuteWorld.Makes (px : ExecutorPlatform) (call : ExecuteCall) (world : ExecuteWorld)
    (i : Nat) : Prop :=
  world.initError = none ∧ world.allowed = true ∧ i < call.maxRetries.toInt.toNat ∧
    ∀ j < i, world.FailsAt px call j

/-! ## One attempt -/

section

variable {px : ExecutorPlatform} {call : ExecuteCall} {world : ExecuteWorld}

theorem AttemptWorld.reaches_of_sends {w : AttemptWorld} (sends : w.sends px call = true) :
    w.reaches px call = true := by
  obtain ⟨params, isParams, _⟩ := (Option.any_eq_true _ _).mp sends
  unfold AttemptWorld.reaches
  rw [isParams]
  rfl

theorem referenceID_of_vaultRequest {publicKey : Slice UInt8} {metadata : RequestMetadata}
    {secrets : Slice SecretIdentifier} {w : VaultWorld} {request : VaultRequest}
    (built : vaultRequest px publicKey metadata secrets w = .ok request) :
    request.metadata.referenceID = metadata.referenceID := by
  have same := vaultRequest_referenceID px publicKey metadata secrets w metadata.referenceID
  rw [show { metadata with referenceID := metadata.referenceID } = metadata from rfl, built] at same
  rw [Except.ok.inj same]

theorem isOk_vaultRequest (px : ExecutorPlatform) (publicKey : Slice UInt8)
    (metadata : RequestMetadata) (secrets : Slice SecretIdentifier) (w : VaultWorld) :
    (vaultRequest px publicKey metadata secrets w).isOk =
      (w.marshalError.isNone && w.binding.binds) := by
  unfold vaultRequest applyWorkflowDONBindingToVault
  cases w.marshalError with
  | some err => rfl
  | none => cases w.binding <;> rfl

theorem sent_getEncryptedDecryptionShares (px : ExecutorPlatform) (e : Executor) (now later : Int)
    (secrets : Slice SecretIdentifier) (publicKey : Slice UInt8) (metadata : RequestMetadata)
    (w : VaultWorld) :
    ((e.getEncryptedDecryptionShares px now later secrets publicKey metadata w).sent.isSome =
        e.asks px now secrets publicKey metadata.workflowOwner w) ∧
      ∀ request, (e.getEncryptedDecryptionShares px now later secrets publicKey metadata w).sent =
        some request → request.metadata.referenceID = metadata.referenceID := by
  unfold Executor.getEncryptedDecryptionShares Executor.asks
  rw [← isOk_vaultRequest px publicKey metadata secrets w]
  split
  · rename_i unloggable
    simp [unloggable]
  · rename_i loggable
    split
    · rename_i nothing
      simp [nothing]
    · rename_i required
      split
      · rename_i uninitialized
        simp [uninitialized]
      · rename_i initialized
        split
        · rename_i served
          simp [served]
        · rename_i missed
          cases built : vaultRequest px publicKey metadata secrets w with
          | error err => simp [Except.isOk, Except.toBool]
          | ok request =>
              have isReference := referenceID_of_vaultRequest built
              dsimp only
              split <;> simp_all [Except.isOk, Except.toBool]

theorem not_sent_nextReference (s : AttemptState) :
    s.nextReference.vaultDONRequestSent = false := by
  unfold AttemptState.nextReference
  split
  · rfl
  · rename_i unsent
    exact Bool.not_eq_true _ ▸ unsent

/-- What an attempt does to the shared variables, and what it sends. -/
structure AttemptSpec (px : ExecutorPlatform) (call : ExecuteCall) (s : AttemptState)
    (w : AttemptWorld) (r : AttemptResult) : Prop where
  retryIndex : r.state.retryIndex = s.nextReference.retryIndex
  metadata : r.state.metadata = s.nextReference.metadata
  reached : r.state.vaultDONRequestSent = w.reaches px call
  sent : r.sent.isSome = w.sends px call
  referenceID : ∀ request, r.sent = some request →
    request.metadata.referenceID = s.nextReference.metadata.referenceID

theorem attempt_spec {s : AttemptState} (own : s.OfCall call) (w : AttemptWorld) :
    AttemptSpec px call s w (attempt px call s w) := by
  have unsent := not_sent_nextReference s
  obtain ⟨referenceID, isMetadata⟩ := own.nextReference
  have owner : s.nextReference.metadata.workflowOwner = call.metadata.workflowOwner := by
    rw [isMetadata]
  have early {outcome : Outcome ExecutorError (List ExecuteResponse)}
      (lost : w.params px call = none) :
      AttemptSpec px call s w ⟨s.nextReference, none, none, outcome⟩ := by
    refine ⟨rfl, rfl, ?_, ?_, nofun⟩
    · rw [AttemptWorld.reaches, lost, unsent]
      rfl
    · rw [AttemptWorld.sends, lost]
      rfl
  have late {params : EnclaveParams} (found : w.params px call = some params) (threshold : Int)
      (answer : Option (Except Bytes (List ExecuteResponse)))
      (outcome : Outcome ExecutorError (List ExecuteResponse)) :
      AttemptSpec px call s w ⟨{ s.nextReference with vaultDONRequestSent := true },
        (Executor.getEncryptedDecryptionShares px
          { w.executor with cryptographyThreshold := threshold } w.now w.later call.secrets
          params.enclaveEphemeralPublicKey s.nextReference.metadata w.vault).sent,
        answer, outcome⟩ := by
    obtain ⟨isSent, isReference⟩ := sent_getEncryptedDecryptionShares px
      { w.executor with cryptographyThreshold := threshold } w.now w.later call.secrets
      params.enclaveEphemeralPublicKey s.nextReference.metadata w.vault
    refine ⟨rfl, rfl, ?_, ?_, isReference⟩
    · rw [AttemptWorld.reaches, found]
      rfl
    · rw [AttemptWorld.sends, found, isSent, owner]
      rfl
  unfold attempt
  dsimp only
  cases refreshed :
    (ensureFreshEnclaves px.toCrypto call.authHeader w.refreshState w.refresh).result with
  | error err => exact early (by simp only [AttemptWorld.params, refreshed])
  | ok _ =>
      dsimp only
      split
      · rename_i lost
        exact early (by simp only [AttemptWorld.params, refreshed, lost])
      · rename_i lost
        exact early (by simp only [AttemptWorld.params, refreshed, lost])
      · rename_i params found
        have isParams : w.params px call = some params := by
          simp only [AttemptWorld.params, refreshed, found]
        split
        · exact late isParams _ _ _
        · exact late isParams _ _ _
        · split
          · exact late isParams _ _ _
          · exact late isParams _ _ _

/-! ## The attempts -/

/-- The next attempt is the one after `n` attempts that came to the vault's step. -/
structure AttemptState.Counts (call : ExecuteCall) (n : Nat) (s : AttemptState) : Prop where
  own : s.OfCall call
  retryIndex : s.nextReference.retryIndex = n
  referenceID : s.nextReference.metadata.referenceID = referenceFor call n

theorem AttemptState.Counts.start (call : ExecuteCall) :
    AttemptState.Counts call 0 (.start call) := ⟨⟨call.metadata.referenceID, rfl⟩, rfl, rfl⟩

/-- **One attempt.** -/
theorem AttemptState.Counts.attempt {n : Nat} {s : AttemptState} (counts : s.Counts call n)
    (w : AttemptWorld) :
    (ConfidentialCompute.attempt px call s w).state.Counts call
      (n + if w.reaches px call then 1 else 0) := by
  have spec : AttemptSpec px call s w (ConfidentialCompute.attempt px call s w) :=
    attempt_spec counts.own w
  have own := (attempt_eq_result px counts.own w).2.2
  generalize ConfidentialCompute.attempt px call s w = r at spec own
  have index : r.state.retryIndex = n := spec.retryIndex.trans counts.retryIndex
  rw [← spec.reached]
  cases isReached : r.state.vaultDONRequestSent with
  | true =>
      rw [if_pos rfl]
      refine ⟨own, ?_, ?_⟩
      · rw [nextReference, if_pos isReached, index]
      · rw [nextReference, if_pos isReached, index]
        rfl
  | false =>
      have same : r.state.nextReference = r.state := by
        rw [nextReference, isReached]
        rfl
      rw [if_neg Bool.false_ne_true, Nat.add_zero]
      refine ⟨own, ?_, ?_⟩
      · rw [same, index]
      · rw [same, spec.metadata, counts.referenceID]

/-- The attempts of an execution, each with what it has found. -/
theorem execute_attempts (px : ExecutorPlatform) (call : ExecuteCall) (world : ExecuteWorld) :
    (∀ i, i < (Executor.execute px call world).attempts.length ↔ world.Makes px call i) ∧
      ∀ (i : Nat) r, (Executor.execute px call world).attempts[i]? = some r →
        r.sent.isSome = (world.attempts i).sends px call ∧
          ∀ request, r.sent = some request → request.metadata.referenceID = referenceFor call
            ((List.range i).countP fun j => (world.attempts j).reaches px call) := by
  unfold Executor.execute ExecuteWorld.Makes
  split
  · rename_i err failed
    exact ⟨fun i => iff_of_false (Nat.not_lt_zero i) fun ⟨started, _⟩ =>
      (nomatch failed.symm.trans started), nofun⟩
  · rename_i started
    split
    · rename_i allowed
      refine ⟨fun i => ?_, fun i r made => ?_⟩
      · dsimp only
        rw [made_iff (.start call)]
        simp [started, allowed, List.mem_range']
      · obtain ⟨s, counts, rfl⟩ := attempt_of_retryFrom (P := fun j s => s.Counts call
          ((List.range j).countP fun j => (world.attempts j).reaches px call))
          (fun j s counts => ⟨counts.own, by
            rw [List.range_succ, List.countP_append, List.countP_singleton]
            exact counts.attempt (world.attempts j)⟩)
          (i := 0) (.start call) made
        have spec : AttemptSpec px call s _ _ := attempt_spec counts.own (world.attempts (0 + i))
        rw [Nat.zero_add] at counts spec ⊢
        exact ⟨spec.sent, fun request sent =>
          (spec.referenceID request sent).trans counts.referenceID⟩
    · rename_i refused
      exact ⟨fun i => iff_of_false (Nat.not_lt_zero i) fun ⟨_, allowed, _⟩ => refused allowed,
        nofun⟩

/-- How many of the attempts before one have sent a request. -/
theorem countP_sent {attempts before after : List AttemptResult} {sends : Nat → Bool}
    (each : ∀ (i : Nat) r, attempts[i]? = some r → r.sent.isSome = sends i)
    (split : attempts = before ++ after) :
    before.countP (·.sent.isSome) = (List.range before.length).countP sends := by
  have flags : before.map (·.sent.isSome) = (List.range before.length).map sends := by
    refine List.ext_getElem (by simp) fun i few _ => ?_
    rw [List.length_map] at few
    rw [List.getElem_map, List.getElem_map, List.getElem_range]
    refine each i _ ?_
    rw [split, List.getElem?_append_left few, List.getElem?_eq_getElem few]
  have counted := congrArg (List.countP id) flags
  rwa [List.countP_map, List.countP_map] at counted

end

/-- Numbers that an execution gets to are told apart by their reference IDs. -/
theorem retryReference_inj {a b : Nat} (left : a < 2 ^ 63) (right : b < 2 ^ 63)
    (same : retryReference a = retryReference b) : a = b := by
  have texts : ascii "confidential-retry-" ++ decimal (a % 2 ^ 63) =
      ascii "confidential-retry-" ++ decimal (b % 2 ^ 63) := congrArg Slice.data same
  have numbers := decimal_injective (List.append_cancel_left texts)
  rwa [Nat.mod_eq_of_lt left, Nat.mod_eq_of_lt right] at numbers

/-- When the number that an attempt gives to its request is that of the request. -/
theorem referenceFor_eq_iff {call : ExecuteCall} {reaches sends : Nat → Bool} {i : Nat}
    (small : i < 2 ^ 63) (reached : ∀ j, sends j = true → reaches j = true) :
    referenceFor call ((List.range i).countP reaches) =
        referenceFor call ((List.range i).countP sends) ↔
      (∀ j < i, reaches j = true → sends j = true) ∨
        (∀ j < i, sends j = false) ∧
          call.metadata.referenceID = retryReference ((List.range i).countP reaches) := by
  have fewer : (List.range i).countP sends ≤ (List.range i).countP reaches :=
    List.countP_mono_left fun j _ => reached j
  have bound : (List.range i).countP reaches < 2 ^ 63 :=
    lt_of_le_of_lt (List.countP_le_length.trans (List.length_range ..).le) small
  have all (le : (List.range i).countP reaches ≤ (List.range i).countP sends) :
      ∀ j < i, reaches j = true → sends j = true := fun j few =>
    forall_of_countP_le (fun j _ => reached j) le j (List.mem_range.mpr few)
  have none_ : (List.range i).countP sends = 0 ↔ ∀ j < i, sends j = false := by
    simp [List.countP_eq_zero]
  constructor
  · intro same
    generalize (List.range i).countP reaches = steps at *
    generalize (List.range i).countP sends = requests at *
    cases steps with
    | zero => exact Or.inl (all (Nat.zero_le _))
    | succ steps =>
        cases requests with
        | zero => exact Or.inr ⟨none_.mp rfl, same.symm⟩
        | succ requests =>
            exact Or.inl (all (retryReference_inj bound (lt_of_le_of_lt fewer bound) same).le)
  · rintro (allSent | ⟨unsent, isCaller⟩)
    · rw [le_antisymm fewer (List.countP_mono_left fun j few => allSent j (List.mem_range.mp few))]
    · rw [none_.mpr unsent]
      generalize (List.range i).countP reaches = steps at isCaller ⊢
      cases steps with
      | zero => rfl
      | succ steps => exact isCaller.symm

/-- **Numbered by the requests.** The first request of an execution has the caller's reference ID
and each later one the number of the requests before it, if and only if this holds of every attempt
that is made and sends a request: every attempt before it that comes to the vault's step sends
one; or none does, and the caller's reference ID is the one that the code gives anyway. -/
theorem reference_ids_count_requests_iff (px : ExecutorPlatform) (call : ExecuteCall)
    (world : ExecuteWorld) :
    (∀ k request, (sentRequests (Executor.execute px call world).attempts)[k]? = some request →
        request.metadata.referenceID = referenceFor call k) ↔
      ∀ i, world.Makes px call i → (world.attempts i).sends px call = true →
        (∀ j < i, (world.attempts j).reaches px call = true →
          (world.attempts j).sends px call = true) ∨
        (∀ j < i, (world.attempts j).sends px call = false) ∧
          call.metadata.referenceID = retryReference
            ((List.range i).countP fun j => (world.attempts j).reaches px call) := by
  obtain ⟨made, each⟩ := execute_attempts px call world
  have reached (j : Nat) (sends : (world.attempts j).sends px call = true) :
      (world.attempts j).reaches px call = true := AttemptWorld.reaches_of_sends sends
  have small {i : Nat} (makes : world.Makes px call i) : i < 2 ^ 63 := by
    have bound := call.maxRetries.toInt_lt
    have few := makes.2.2.1
    omega
  generalize (Executor.execute px call world).attempts = attempts at made each ⊢
  constructor
  · intro numbered i makes sends
    have few := (made i).mpr makes
    have isR := List.getElem?_eq_getElem few
    obtain ⟨isSent, isReference⟩ := each i _ isR
    obtain ⟨request, sent⟩ := Option.isSome_iff_exists.mp (isSent.trans sends)
    have split : attempts = attempts.take i ++ attempts[i] :: attempts.drop (i + 1) := by
      rw [List.getElem_cons_drop, List.take_append_drop]
    have expected := numbered _ request (getElem?_filterMap_iff.mpr
      ⟨attempts.take i, attempts[i], _, split, sent, rfl⟩)
    rw [isReference request sent, List.length_filterMap_eq_countP,
      countP_sent (fun i r found => (each i r found).1) split, List.length_take,
      Nat.min_eq_left few.le] at expected
    exact (referenceFor_eq_iff (small makes) reached).mp expected
  · intro condition k request found
    obtain ⟨before, r, after, split, sent, isK⟩ := getElem?_filterMap_iff.mp found
    have isR : attempts[before.length]? = some r := by
      rw [split, List.getElem?_append_right (Nat.le_refl _), Nat.sub_self]
      rfl
    have makes := (made before.length).mp (List.getElem?_eq_some_iff.mp isR).1
    obtain ⟨isSent, isReference⟩ := each before.length r isR
    have sends : (world.attempts before.length).sends px call = true := by
      rw [← isSent, sent]
      rfl
    rw [isReference request sent, ← isK, List.length_filterMap_eq_countP,
      countP_sent (fun i r found => (each i r found).1) split]
    exact (referenceFor_eq_iff (small makes) reached).mpr (condition _ makes sends)

/-- The first attempt cannot put its request together. The second sends the first request of the
execution, and numbers it. -/
theorem first_request_numbered :
    let call := Sample.executeCall (Sample.one ⟨Sample.secretKey, ∅⟩)
    let run := Executor.execute Sample.executorPlatform call
      (Sample.twoAttempts Sample.quorumMissed
        { Sample.quorumMissed with vault := ⟨none, false, .disabled, .failed (errorf [])⟩ })
    (sentRequests run.attempts).map (·.metadata.referenceID) = [retryReference 1] ∧
      referenceFor call 0 ≠ retryReference 1 := by
  decide +kernel

end ConfidentialCompute
