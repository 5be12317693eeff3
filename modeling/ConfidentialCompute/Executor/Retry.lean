import ConfidentialCompute.EnclavePool
import ConfidentialCompute.Executor.Refresh
import ConfidentialCompute.Executor.Request
import ConfidentialCompute.Lib.Text

/-!
# The attempts of an execution

`Execute` of `capabilities/framework/executor.go` makes up to `MaxRetries` attempts. Each of them
refreshes the node list, picks an enclave, asks the vault for the shares, signs the request and
hands it to the enclave. An error that is the user's ends the execution; any other error is
joined to those before it, and the next attempt follows after a pause.

When the attempts are used up, `Execute` looks for the text of a quorum timeout in what it
returns. That text holds the errors of all attempts. A timeout that a later attempt got past is
found there as well, and so is the text wherever else an error happens to show it.

An attempt finds the executor as the attempts of other executions have left it, so its state is
part of what the attempt learns from outside.
-/

namespace ConfidentialCompute

open Go

/-! ## Errors of the enclave -/

def errEncryptionRequestedNoKey : Bytes :=
  ascii "encryption requested but no AES-GCM key in secrets"

def errKeyPresentNoEncryption : Bytes := ascii "AES-GCM key present but encryption not requested"

def errResponseBodyTooLarge : Bytes := ascii "response body exceeds maximum allowed size"

def errHTTPRedirectNotAllowed : Bytes := ascii "redirects are not allowed"

def errQuorumTimeout : Bytes := ascii "quorum_timeout"

def errWasmExecutionTimeout : Bytes := ascii "wasm execution deadline exceeded"

/-- What an attempt makes of an error of `ExecuteBatch`. -/
def enclaveError (enclaveID : Bytes32) (err : Bytes) : ExecutorError :=
  if contains err errQuorumTimeout then errorf (ascii "enclave quorum timeout: " ++ err)
  -- The error may contain a URL with secrets in it.
  else if contains err errHTTPRedirectNotAllowed then
    ⟨errHTTPRedirectNotAllowed, some .invalidArgument⟩
  else if contains err errEncryptionRequestedNoKey || contains err errKeyPresentNoEncryption ||
      contains err errResponseBodyTooLarge then
    ⟨ascii "enclave request failed: " ++ err, some .invalidArgument⟩
  else if contains err errWasmExecutionTimeout then
    ⟨ascii "enclave wasm execution timed out: " ++ err, some .deadlineExceeded⟩
  else
    errorf (ascii "failed to execute enclave request. enclave ID: " ++
      Base64.encode enclaveID.data ++ ascii ", error: " ++ err)

/-! ## One attempt -/

structure EnclaveParams where
  enclaveID : Bytes32
  enclaveEphemeralPublicKey : Slice UInt8

/-- The loop over the creation times, which it compares in microseconds. -/
def mostRecentPubKeyIndex (i : Nat) (index : Nat) (creationTime : Int) : List Int → Nat
  | [] => index
  | time :: times =>
      if creationTime < time / 1000 then mostRecentPubKeyIndex (i + 1) i (time / 1000) times
      else mostRecentPubKeyIndex (i + 1) index creationTime times

/-- `publicKeys` is what `GetPublicKeys` of the pool returned. -/
def getEnclaveParams (membership : MembershipState) (reqID : Bytes32)
    (publicKeys : Except Bytes (List EnclavePublicKeyData)) :
    Outcome ExecutorError EnclaveParams :=
  match publicKeys with
  | .error err => .err (errorf (ascii "failed to get public keys: " ++ err))
  | .ok [] =>
      .err (errorf (ascii "no enclave public keys found for request " ++ Hex.encode reqID.data))
  | .ok (selected :: _) =>
      if selected.publicKeys.length = 0 then
        .err (errorf (ascii "no enclave public keys found for request " ++ Hex.encode reqID.data))
      else
        match validateEnclaveSigners membership.donMembers membership.donF selected.config with
        | .error err =>
            .err (errorf (ascii "enclave config validation failed for request " ++
              Hex.encode reqID.data ++ ascii ": " ++ ascii err))
        | .ok () =>
            match selected.publicKeys.data[mostRecentPubKeyIndex 0 0 0
                selected.creationTimes.data]? with
            | none => .panicked
            | some key => .ok ⟨selected.enclaveID, key⟩

/-- What `Execute` is called with, and the settings that it reads. -/
structure ExecuteCall where
  protoBytes : Option (Slice UInt8)
  secrets : Slice SecretIdentifier
  metadata : RequestMetadata
  authHeader : Option GoString
  maxRetries : Int64
  quorumTimeoutIsUserError : Bool

/-- The state in which an attempt finds the executor, and what it learns from outside. -/
structure AttemptWorld where
  executor : Executor
  refreshState : RefreshState
  refresh : RefreshWorld
  publicKeys : Except Bytes (List EnclavePublicKeyData)
  now : Int
  later : Int
  vault : VaultWorld
  sign : Bytes → Except Bytes (Slice UInt8)
  executeBatch : SignedComputeRequest → Bytes32 → Except Bytes (List ExecuteResponse)

/-- The variables of `Execute` that the attempts share. -/
structure AttemptState where
  retryIndex : Nat
  vaultDONRequestSent : Bool
  metadata : RequestMetadata
deriving DecidableEq

/-- `retryTemplate` with a number. There are fewer than `2 ^ 63` attempts. -/
def retryReference (retryIndex : Nat) : GoString :=
  ⟨ascii "confidential-retry-" ++ decimal (retryIndex % 2 ^ 63), by
    have digits : (decimal (retryIndex % 2 ^ 63)).length ≤ 19 :=
      length_decimal_le (by decide)
        (Nat.lt_of_lt_of_le (Nat.mod_lt _ (Nat.two_pow_pos 63)) (by norm_num))
    have stem : (ascii "confidential-retry-").length = 19 := by decide
    rw [List.length_append, stem]
    exact Nat.lt_of_le_of_lt (Nat.add_le_add_left digits 19) (by norm_num)⟩

/-- The start of an attempt. -/
def AttemptState.nextReference (s : AttemptState) : AttemptState :=
  if s.vaultDONRequestSent then
    { retryIndex := s.retryIndex + 1
      vaultDONRequestSent := false
      metadata := { s.metadata with referenceID := retryReference (s.retryIndex + 1) } }
  else s

/-- What an attempt leaves in the shared variables, what it has sent to the vault, what
`ExecuteBatch` returned if it got there, and how it ends. -/
structure AttemptResult where
  state : AttemptState
  sent : Option VaultRequest
  answer : Option (Except Bytes (List ExecuteResponse))
  outcome : Outcome ExecutorError (List ExecuteResponse)

/-- The end of an attempt. A batch without responses is an index out of range. -/
def checkAnswer (membership : MembershipState) (reqID enclaveID : Bytes32) :
    Except Bytes (List ExecuteResponse) → Outcome ExecutorError (List ExecuteResponse)
  | .error err => .err (enclaveError enclaveID err)
  | .ok [] => .panicked
  | .ok (first :: rest) =>
      match validateEnclaveSigners membership.donMembers membership.donF first.config with
      | .error err =>
          .err (errorf (ascii "execute response config validation failed for request " ++
            Hex.encode reqID.data ++ ascii ": " ++ ascii err))
      | .ok () => .ok (first :: rest)

def attempt (px : ExecutorPlatform) (call : ExecuteCall) (s : AttemptState) (w : AttemptWorld) :
    AttemptResult :=
  let s := s.nextReference
  let reqID := px.sha256 call.metadata.workflowExecutionID.data
  let refreshed := ensureFreshEnclaves px.toCrypto call.authHeader w.refreshState w.refresh
  match refreshed.result with
  | .error err =>
      ⟨s, none, none,
        .err (err.wrap (ascii "failed to ensure fresh enclaves: "))⟩
  | .ok () =>
      match getEnclaveParams refreshed.state.membership reqID w.publicKeys with
      | .panicked => ⟨s, none, none, .panicked⟩
      | .err err =>
          ⟨s, none, none,
            .err (err.wrap (ascii "failed to get enclave params: "))⟩
      | .ok params =>
          -- Set before it is known whether a request will be sent.
          let s := { s with vaultDONRequestSent := true }
          let e := { w.executor with
            cryptographyThreshold := refreshed.state.cryptographyThreshold }
          let fetched := e.getEncryptedDecryptionShares px w.now w.later call.secrets
            params.enclaveEphemeralPublicKey s.metadata w.vault
          let prepared := e.prepareRequest px w.now w.later call.protoBytes call.secrets
            params.enclaveEphemeralPublicKey s.metadata w.vault
          match prepared.2 with
          | .panicked => ⟨s, fetched.sent, none, .panicked⟩
          | .err err => ⟨s, fetched.sent, none, .err err⟩
          | .ok computeReq =>
              match w.sign (requestPayload px.toCrypto (computeReq.hash px.toCrypto)) with
              | .error err =>
                  ⟨s, fetched.sent, none,
                    .err (errorf (ascii "failed to sign compute request: " ++ err))⟩
              | .ok signature =>
                  let answer := w.executeBatch { computeReq with signature } params.enclaveID
                  ⟨s, fetched.sent, some answer,
                    checkAnswer refreshed.state.membership reqID params.enclaveID answer⟩

/-! ## The attempts -/

/-- How `retryWithBackoff` ends. -/
inductive RetryEnd where
  | succeeded (responses : List ExecuteResponse)
  | userError (err : ExecutorError)
  /-- The context ended during a pause. -/
  | cancelled (err : Bytes)
  | exhausted (errs : List Bytes)
  | panicked
deriving DecidableEq

/-- What happens around the attempts. `cancelled i` is the context's error if it ends in the pause
after attempt `i`. -/
structure ExecuteWorld where
  initError : Option ExecutorError
  allowed : Bool
  attempts : Nat → AttemptWorld
  cancelled : Nat → Option Bytes

/-- `retryWithBackoff` from attempt `i` on, with the errors joined so far. -/
def retryFrom (px : ExecutorPlatform) (call : ExecuteCall) (world : ExecuteWorld) :
    Nat → Nat → List Bytes → AttemptState → List AttemptResult × RetryEnd
  | 0, _, errs, _ => ([], .exhausted errs)
  | remaining + 1, i, errs, s =>
      let result := attempt px call s (world.attempts i)
      match result.outcome with
      | .ok responses => ([result], .succeeded responses)
      | .panicked => ([result], .panicked)
      | .err err =>
          match err.userCode with
          | some _ => ([result], .userError err)
          | none =>
              match world.cancelled i with
              | some ctxErr => ([result], .cancelled ctxErr)
              | none =>
                  let rest := retryFrom px call world remaining (i + 1) (errs ++ [err.text])
                    result.state
                  (result :: rest.1, rest.2)

/-- `%d` for an `int`. -/
def formatInt (n : Int) : Bytes := if n < 0 then ascii "-" ++ decimal n.natAbs else decimal n.natAbs

/-- Without an attempt there is no error to wrap. -/
def exhaustedText (maxRetries : Int64) (errs : List Bytes) : Bytes :=
  ascii "failed after " ++ formatInt maxRetries.toInt ++ ascii " retries: " ++
    if errs = [] then ascii "%!w(<nil>)" else joinLines errs

/-- What `retryWithBackoff` returns. -/
def RetryEnd.outcome (maxRetries : Int64) : RetryEnd → Outcome ExecutorError (List ExecuteResponse)
  | .succeeded responses => .ok responses
  | .userError err => .err err
  | .cancelled err => .err (errorf err)
  | .exhausted errs => .err (errorf (exhaustedText maxRetries errs))
  | .panicked => .panicked

/-! ## The execution -/

def sanitizeLogString (s : Bytes) : Bytes :=
  let s := s.filter fun b => b ≠ newline ∧ b ≠ 0x0d
  if 256 < s.length then s.take 256 ++ ascii "..." else s

/-- The attempts that were made, how they ended, and what is returned. -/
structure ExecuteResult where
  attempts : List AttemptResult
  ended : Option RetryEnd
  result : Outcome ExecutorError (Slice UInt8)

/-- What `Execute` makes of the end of the attempts. -/
def concludeExecute (call : ExecuteCall) :
    Outcome ExecutorError (List ExecuteResponse) → Outcome ExecutorError (Slice UInt8)
  | .panicked => .panicked
  | .err err =>
      if call.quorumTimeoutIsUserError && contains err.text errQuorumTimeout then
        .err ⟨ascii "enclave quorum timeout: " ++ err.text, some .deadlineExceeded⟩
      else .err err
  | .ok [response] => .ok response.output
  | .ok responses =>
      .err (errorf (ascii "expected one enclave response, got " ++ decimal responses.length))

def AttemptState.start (call : ExecuteCall) : AttemptState := ⟨0, false, call.metadata⟩

def Executor.execute (px : ExecutorPlatform) (call : ExecuteCall) (world : ExecuteWorld) :
    ExecuteResult :=
  match world.initError with
  | some err => ⟨[], none, .err err⟩
  | none =>
      if world.allowed then
        let run := retryFrom px call world call.maxRetries.toInt.toNat 0 [] (.start call)
        ⟨run.1, some run.2, concludeExecute call (run.2.outcome call.maxRetries)⟩
      else
        ⟨[], none, .err (errorf (ascii "rate limit exceeded for workflow owner " ++
          sanitizeLogString call.metadata.workflowOwner.data))⟩

/-! ## The joined errors -/

/-- The enclave did not get its quorum in this attempt. -/
def AttemptResult.timedOut (r : AttemptResult) : Bool :=
  match r.answer with
  | some (.error err) => contains err errQuorumTimeout
  | _ => false

/-- The attempt failed with an error whose text holds that of a quorum timeout. -/
def AttemptResult.mentions (r : AttemptResult) : Bool :=
  match r.outcome with
  | .err err => contains err.text errQuorumTimeout
  | _ => false

section

variable {px : ExecutorPlatform} {call : ExecuteCall} {world : ExecuteWorld}
  {remaining i : Nat} {errs : List Bytes} {s : AttemptState}

theorem vaultRequest_referenceID (px : ExecutorPlatform) (publicKey : Slice UInt8)
    (metadata : RequestMetadata) (secrets : Slice SecretIdentifier) (w : VaultWorld)
    (referenceID : GoString) :
    vaultRequest px publicKey { metadata with referenceID := referenceID } secrets w =
      (vaultRequest px publicKey metadata secrets w).map fun request =>
        { request with metadata := { request.metadata with referenceID := referenceID } } := by
  unfold vaultRequest applyPropagatedOrgIDToVault applyWorkflowDONBindingToVault
  cases w.marshalError with
  | some err => rfl
  | none => cases w.propagateOrgID <;> cases w.binding <;> rfl

/-- The reference ID changes what is sent to the vault, and nothing else. -/
theorem getEncryptedDecryptionShares_referenceID (px : ExecutorPlatform) (e : Executor)
    (now later : Int) (secrets : Slice SecretIdentifier) (publicKey : Slice UInt8)
    (metadata : RequestMetadata) (w : VaultWorld) (referenceID : GoString) :
    (e.getEncryptedDecryptionShares px now later secrets publicKey
        { metadata with referenceID := referenceID } w).result =
      (e.getEncryptedDecryptionShares px now later secrets publicKey metadata w).result := by
  unfold Executor.getEncryptedDecryptionShares
  rw [vaultRequest_referenceID]
  split
  · rfl
  · split
    · rfl
    · split
      · rfl
      · dsimp only
        split
        · rfl
        · cases vaultRequest px publicKey metadata secrets w with
          | error err => rfl
          | ok request =>
              dsimp only [Except.map]
              split <;> rfl

theorem prepareRequest_referenceID (px : ExecutorPlatform) (e : Executor) (now later : Int)
    (protoBytes : Option (Slice UInt8)) (secrets : Slice SecretIdentifier)
    (publicKey : Slice UInt8) (metadata : RequestMetadata) (w : VaultWorld)
    (referenceID : GoString) :
    (e.prepareRequest px now later protoBytes secrets publicKey
        { metadata with referenceID := referenceID } w).2 =
      (e.prepareRequest px now later protoBytes secrets publicKey metadata w).2 := by
  unfold Executor.prepareRequest
  dsimp only
  rw [getEncryptedDecryptionShares_referenceID]
  split
  · rfl
  · rfl
  · split <;> rfl

/-- The metadata are the caller's but for the reference ID. -/
def AttemptState.OfCall (call : ExecuteCall) (s : AttemptState) : Prop :=
  ∃ referenceID, s.metadata = { call.metadata with referenceID := referenceID }

theorem AttemptState.OfCall.start (call : ExecuteCall) : (AttemptState.start call).OfCall call :=
  ⟨call.metadata.referenceID, rfl⟩

theorem AttemptState.OfCall.nextReference (own : s.OfCall call) :
    s.nextReference.OfCall call := by
  obtain ⟨referenceID, isMetadata⟩ := own
  unfold AttemptState.nextReference
  split
  · exact ⟨retryReference (s.retryIndex + 1), by rw [isMetadata]⟩
  · exact ⟨referenceID, isMetadata⟩

/-- The attempt as it would go if it were the first. -/
def AttemptWorld.result (px : ExecutorPlatform) (call : ExecuteCall) (w : AttemptWorld) :
    AttemptResult := attempt px call (.start call) w

/-- How an attempt goes does not depend on those before it. -/
theorem attempt_eq_result (px : ExecutorPlatform) (own : s.OfCall call) (w : AttemptWorld) :
    (attempt px call s w).outcome = (w.result px call).outcome ∧
      (attempt px call s w).answer = (w.result px call).answer ∧
      (attempt px call s w).state.OfCall call := by
  have own' := own.nextReference
  obtain ⟨referenceID, isMetadata⟩ := own.nextReference
  have first : (AttemptState.start call).nextReference = .start call := rfl
  unfold AttemptWorld.result attempt
  rw [first]
  dsimp only
  cases (ensureFreshEnclaves px.toCrypto call.authHeader w.refreshState w.refresh).result with
  | error err => exact ⟨rfl, rfl, own'⟩
  | ok _ =>
      dsimp only
      split
      · exact ⟨rfl, rfl, own'⟩
      · exact ⟨rfl, rfl, own'⟩
      · rw [isMetadata, prepareRequest_referenceID]
        dsimp only [AttemptState.start]
        split
        · exact ⟨rfl, rfl, referenceID, rfl⟩
        · exact ⟨rfl, rfl, referenceID, rfl⟩
        · split
          · exact ⟨rfl, rfl, referenceID, rfl⟩
          · exact ⟨rfl, rfl, referenceID, rfl⟩

/-- Attempt `i` fails with an error that is not the user's, and the pause after it is not cut
short. -/
def ExecuteWorld.FailsAt (px : ExecutorPlatform) (call : ExecuteCall) (world : ExecuteWorld)
    (i : Nat) : Prop :=
  world.cancelled i = none ∧
    ∃ err, ((world.attempts i).result px call).outcome = .err err ∧ err.userCode = none

/-- An attempt that fails is followed by the others, and any other is the last. -/
theorem retryFrom_succ (world : ExecuteWorld) (remaining i : Nat) (errs : List Bytes)
    (own : s.OfCall call) :
    (world.FailsAt px call i ∧
        ∃ err rest, (attempt px call s (world.attempts i)).outcome = .err err ∧
        rest = retryFrom px call world remaining (i + 1) (errs ++ [err.text])
          (attempt px call s (world.attempts i)).state ∧
        retryFrom px call world (remaining + 1) i errs s =
          (attempt px call s (world.attempts i) :: rest.1, rest.2)) ∨
      ¬ world.FailsAt px call i ∧
        (retryFrom px call world (remaining + 1) i errs s).1 =
          [attempt px call s (world.attempts i)] ∧
        ∀ all, (retryFrom px call world (remaining + 1) i errs s).2 ≠ .exhausted all := by
  unfold ExecuteWorld.FailsAt
  rw [← (attempt_eq_result px own (world.attempts i)).1, retryFrom]
  dsimp only
  split
  · rename_i ended
    exact Or.inr ⟨fun ⟨_, _, failed, _⟩ => (nomatch ended.symm.trans failed), rfl, nofun⟩
  · rename_i ended
    exact Or.inr ⟨fun ⟨_, _, failed, _⟩ => (nomatch ended.symm.trans failed), rfl, nofun⟩
  · rename_i err failed
    split
    · rename_i isUser
      refine Or.inr ⟨fun ⟨_, _, same, isSystem⟩ => ?_, rfl, nofun⟩
      cases failed.symm.trans same
      cases isUser.symm.trans isSystem
    · rename_i isSystem
      split
      · rename_i cancelled
        exact Or.inr ⟨fun ⟨pause, _⟩ => (nomatch cancelled.symm.trans pause), rfl, nofun⟩
      · rename_i pause
        exact Or.inl ⟨⟨pause, err, failed, isSystem⟩, err, _, failed, rfl, rfl⟩

/-- **Attempt rule.** What every attempt keeps of the shared variables holds before each. -/
theorem attempt_of_retryFrom {P : Nat → AttemptState → Prop}
    (keeps : ∀ j s, P j s → s.OfCall call ∧ P (j + 1) (attempt px call s (world.attempts j)).state)
    {k : Nat} {r : AttemptResult} (holds : P i s)
    (made : (retryFrom px call world remaining i errs s).1[k]? = some r) :
    ∃ s', P (i + k) s' ∧ r = attempt px call s' (world.attempts (i + k)) := by
  induction remaining generalizing i k errs s with
  | zero => cases made
  | succ remaining ih =>
      rcases retryFrom_succ world remaining i errs (keeps i s holds).1 with
        ⟨_, _, _, _, rfl, run⟩ | ⟨_, only, _⟩
      · rw [run] at made
        cases k with
        | zero => exact ⟨s, holds, (Option.some.inj made).symm⟩
        | succ k =>
            rw [← Nat.succ_add_eq_add_succ]
            exact ih (keeps i s holds).2 made
      · rw [only] at made
        cases k with
        | zero => exact ⟨s, holds, (Option.some.inj made).symm⟩
        | succ k => cases made

/-- An attempt is made when all before it have failed. -/
theorem made_iff {k : Nat} (own : s.OfCall call) :
    k < (retryFrom px call world remaining i errs s).1.length ↔
      k < remaining ∧ ∀ j ∈ List.range' i k, world.FailsAt px call j := by
  induction remaining generalizing i k errs s with
  | zero => exact iff_of_false (Nat.not_lt_zero k) fun ⟨few, _⟩ => Nat.not_lt_zero k few
  | succ remaining ih =>
      have own' := (attempt_eq_result px own (world.attempts i)).2.2
      rcases retryFrom_succ world remaining i errs own with
        ⟨fails, _, _, _, rfl, run⟩ | ⟨stops, only, _⟩
      · rw [run]
        cases k with
        | zero => simp
        | succ k =>
            rw [List.length_cons, Nat.succ_lt_succ_iff, ih own', Nat.succ_lt_succ_iff,
              List.range'_succ, List.forall_mem_cons, and_iff_right fails]
      · rw [only]
        cases k with
        | zero => simp
        | succ k =>
            rw [List.range'_succ, List.forall_mem_cons]
            exact iff_of_false (by simp) fun ⟨_, fails, _⟩ => stops fails

/-- The attempts are used up when each of them fails. -/
theorem retryFrom_exhausted_iff (own : s.OfCall call) :
    (∃ all, (retryFrom px call world remaining i errs s).2 = .exhausted all) ↔
      ∀ k ∈ List.range' i remaining, world.FailsAt px call k := by
  induction remaining generalizing i errs s with
  | zero => exact iff_of_true ⟨errs, rfl⟩ nofun
  | succ remaining ih =>
      rw [List.range'_succ, List.forall_mem_cons]
      rcases retryFrom_succ world remaining i errs own with
        ⟨fails, _, _, _, rfl, run⟩ | ⟨stops, _, unended⟩
      · rw [run, and_iff_right fails]
        exact ih (attempt_eq_result px own (world.attempts i)).2.2
      · exact iff_of_false (fun ⟨all, ended⟩ => unended all ended) fun both => stops both.1

/-- When the attempts are used up, the error of each of them has been joined. -/
theorem exhausted_errs {all : List Bytes} (own : s.OfCall call)
    (ended : (retryFrom px call world remaining i errs s).2 = .exhausted all) :
    ∃ texts, all = errs ++ texts ∧
      List.Forall₂ (fun r text => ∃ err, r.outcome = .err err ∧ err.text = text)
        (retryFrom px call world remaining i errs s).1 texts := by
  induction remaining generalizing i errs s with
  | zero =>
      cases ended
      exact ⟨[], (List.append_nil _).symm, .nil⟩
  | succ remaining ih =>
      rcases retryFrom_succ world remaining i errs own with
        ⟨_, err, _, failed, rfl, run⟩ | ⟨_, _, unended⟩
      · rw [run] at ended ⊢
        obtain ⟨texts, isAll, each⟩ := ih (attempt_eq_result px own _).2.2 ended
        refine ⟨err.text :: texts, ?_, .cons ⟨err, failed, rfl⟩ each⟩
        rw [isAll, List.append_assoc]
        rfl
      · exact (unended all ended).elim

/-- A text of digits does not hold a word with a letter. -/
theorem not_contains_formatInt (n : Int) : contains (formatInt n) errQuorumTimeout = false := by
  rw [← Bool.not_eq_true, contains_iff]
  intro within
  have letter : (113 : UInt8) ∈ formatInt n := within.subset (by decide)
  have digits : ∀ m : Nat, (113 : UInt8) ∉ decimal m := fun m member =>
    absurd (le_of_mem_decimal member) (by decide)
  unfold formatInt at letter
  split at letter
  · rcases List.mem_append.mp letter with sign | number
    · exact absurd sign (by decide)
    · exact digits _ number
  · exact digits _ letter

/-- What stands before the joined errors does not hold the text of a quorum timeout. -/
theorem infix_failed_after (maxRetries : Int64) (rest : Bytes) :
    errQuorumTimeout <:+: ascii "failed after " ++ formatInt maxRetries.toInt ++
      ascii " retries: " ++ rest ↔ errQuorumTimeout <:+: rest := by
  have space : (0x20 : UInt8) ∉ errQuorumTimeout := by decide
  have words : ascii "failed after " ++ formatInt maxRetries.toInt ++ ascii " retries: " ++ rest =
      ascii "failed" ++ 0x20 :: (ascii "after" ++ 0x20 :: (formatInt maxRetries.toInt ++
        0x20 :: (ascii "retries:" ++ 0x20 :: rest))) := by
    have first : ascii "failed after " = ascii "failed" ++ 0x20 :: (ascii "after" ++ [0x20]) := by
      decide
    have second : ascii " retries: " = 0x20 :: (ascii "retries:" ++ [0x20]) := by decide
    rw [first, second]
    simp
  -- The text has no blank in it, so it is looked for between two blanks.
  rw [words, infix_append_cons_iff space, infix_append_cons_iff space,
    infix_append_cons_iff space, infix_append_cons_iff space]
  have failed : ¬ errQuorumTimeout <:+: ascii "failed" := by decide
  have after : ¬ errQuorumTimeout <:+: ascii "after" := by decide
  have number : ¬ errQuorumTimeout <:+: formatInt maxRetries.toInt := by
    rw [← contains_iff, not_contains_formatInt]
    exact Bool.false_ne_true
  have retries : ¬ errQuorumTimeout <:+: ascii "retries:" := by decide
  tauto

/-- The text of a quorum timeout is found in the joined error exactly if it is found in the error
of an attempt. -/
theorem contains_exhaustedText (maxRetries : Int64) (errs : List Bytes) :
    contains (exhaustedText maxRetries errs) errQuorumTimeout = true ↔
      ∃ text ∈ errs, contains text errQuorumTimeout = true := by
  rw [contains_iff, exhaustedText, infix_failed_after]
  by_cases none : errs = []
  · rw [if_pos none, none]
    simp only [List.not_mem_nil, false_and, exists_false, iff_false]
    decide
  · rw [if_neg none, ← contains_iff]
    exact contains_joinLines (by decide) (by decide) errs

/-- An execution makes no attempt, or what it makes of its attempts is what it returns. -/
theorem execute_cases (px : ExecutorPlatform) (call : ExecuteCall) (world : ExecuteWorld) :
    (Executor.execute px call world).attempts = [] ∧ (Executor.execute px call world).ended = none ∨
      ∃ run, run = retryFrom px call world call.maxRetries.toInt.toNat 0 [] (.start call) ∧
        Executor.execute px call world =
          ⟨run.1, some run.2, concludeExecute call (run.2.outcome call.maxRetries)⟩ := by
  unfold Executor.execute
  split
  · exact Or.inl ⟨rfl, rfl⟩
  · split
    · exact Or.inr ⟨_, rfl, rfl⟩
    · exact Or.inl ⟨rfl, rfl⟩

/-- The result of an execution whose attempts are used up, and the text that it is searched in. -/
theorem execute_exhausted
    (ended : (Executor.execute px call world).ended = some (.exhausted errs)) :
    (Executor.execute px call world).result =
        concludeExecute call (.err (errorf (exhaustedText call.maxRetries errs))) ∧
      (contains (exhaustedText call.maxRetries errs) errQuorumTimeout = true ↔
        ∃ r ∈ (Executor.execute px call world).attempts, r.mentions = true) := by
  rcases execute_cases px call world with ⟨_, unended⟩ | ⟨run, isRun, executed⟩
  · rw [unended] at ended
    cases ended
  · rw [executed] at ended ⊢
    have isEnd : run.2 = .exhausted errs := Option.some.inj ended
    refine ⟨by rw [isEnd]; rfl, ?_⟩
    rw [isRun] at isEnd
    obtain ⟨texts, isErrs, each⟩ := exhausted_errs (.start call) isEnd
    rw [List.nil_append] at isErrs
    subst isErrs
    rw [contains_exhaustedText, isRun]
    constructor
    · rintro ⟨text, member, found⟩
      obtain ⟨r, among, err, isOutcome, rfl⟩ := exists_of_forall₂ each member
      refine ⟨r, among, ?_⟩
      rw [AttemptResult.mentions, isOutcome]
      exact found
    · rintro ⟨r, among, found⟩
      obtain ⟨text, member, err, isOutcome, rfl⟩ := exists_of_forall₂ each.flip among
      rw [AttemptResult.mentions, isOutcome] at found
      exact ⟨_, member, found⟩

end

/-- All attempts are made, and all of them fail. -/
def ExecuteWorld.Exhausts (px : ExecutorPlatform) (call : ExecuteCall) (world : ExecuteWorld) :
    Prop :=
  world.initError = none ∧ world.allowed = true ∧
    ∀ i < call.maxRetries.toInt.toNat, world.FailsAt px call i

section

variable {px : ExecutorPlatform} {call : ExecuteCall} {world : ExecuteWorld}

theorem exhausted_iff :
    (∃ errs, (Executor.execute px call world).ended = some (.exhausted errs)) ↔
      world.Exhausts px call := by
  unfold ExecuteWorld.Exhausts Executor.execute
  split
  · rename_i err failed
    exact iff_of_false (fun ⟨_, ended⟩ => nomatch ended) fun ⟨unfailed, _⟩ =>
      nomatch failed.symm.trans unfailed
  · rename_i started
    split
    · rename_i allowed
      simp only [Option.some.injEq, started, allowed, true_and]
      rw [retryFrom_exhausted_iff (.start call)]
      simp [List.mem_range']
    · rename_i refused
      exact iff_of_false (fun ⟨_, ended⟩ => nomatch ended) fun ⟨_, allowed, _⟩ => refused allowed

/-- Such an execution makes all attempts, and each shows what it finds. -/
theorem attempts_of_exhausts (exhausts : world.Exhausts px call) :
    (Executor.execute px call world).attempts.map (fun r => (r.mentions, r.timedOut)) =
      (List.range call.maxRetries.toInt.toNat).map fun i =>
        (((world.attempts i).result px call).mentions,
          ((world.attempts i).result px call).timedOut) := by
  obtain ⟨started, allowed, fails⟩ := exhausts
  unfold Executor.execute
  rw [started]
  dsimp only
  rw [if_pos allowed]
  have all : (retryFrom px call world call.maxRetries.toInt.toNat 0 [] (.start call)).1.length =
      call.maxRetries.toInt.toNat := by
    refine eq_of_forall_lt_iff fun k => ?_
    rw [made_iff (.start call)]
    refine and_iff_left_of_imp fun few j among => fails j ?_
    rw [List.mem_range'_1] at among
    omega
  refine List.ext_getElem (by rw [List.length_map, List.length_map, List.length_range, all])
    fun k few _ => ?_
  rw [List.length_map] at few
  obtain ⟨s, own, isAttempt⟩ := attempt_of_retryFrom (P := fun _ s => s.OfCall call)
    (fun _ _ own => ⟨own, (attempt_eq_result px own _).2.2⟩) (.start call)
    (List.getElem?_eq_getElem few)
  obtain ⟨outcome, answer, _⟩ := attempt_eq_result px own (world.attempts (0 + k))
  rw [List.getElem_map, List.getElem_map, List.getElem_range, isAttempt]
  unfold AttemptResult.mentions AttemptResult.timedOut
  rw [outcome, answer, Nat.zero_add]

theorem mentions_iff (exhausts : world.Exhausts px call) :
    (∃ r ∈ (Executor.execute px call world).attempts, r.mentions = true) ↔
      ∃ i < call.maxRetries.toInt.toNat,
        ((world.attempts i).result px call).mentions = true := by
  have shown := congrArg (List.any · Prod.fst) (attempts_of_exhausts exhausts)
  rw [List.any_map, List.any_map, Bool.eq_iff_iff, List.any_eq_true, List.any_eq_true] at shown
  simpa only [List.mem_range, Function.comp_apply] using shown

theorem last_timedOut_iff (exhausts : world.Exhausts px call)
    (some_ : 0 < call.maxRetries.toInt.toNat) :
    (∃ r ∈ (Executor.execute px call world).attempts.getLast?, r.timedOut = true) ↔
      ((world.attempts (call.maxRetries.toInt.toNat - 1)).result px call).timedOut = true := by
  have last := congrArg List.getLast? (attempts_of_exhausts exhausts)
  rw [List.getLast?_map, List.getLast?_map, List.getLast?_range, if_neg (by omega)] at last
  obtain ⟨r, isLast, same⟩ := Option.map_eq_some_iff.mp last
  obtain ⟨_, late⟩ := Prod.mk.inj same
  rw [← late, isLast]
  simp

end

/-- **Classified by the last attempt.** With the classification on, an execution that has used up
its attempts and returns the user error of a quorum timeout has met one in its last attempt, if
and only if this holds of what the attempts find: when all of them fail and the error of one holds
the text, then the enclave does not get its quorum in the last. -/
theorem quorum_timeout_classified_iff (px : ExecutorPlatform) (call : ExecuteCall)
    (world : ExecuteWorld) (classified : call.quorumTimeoutIsUserError = true) :
    (∀ errs err, (Executor.execute px call world).ended = some (.exhausted errs) →
        (Executor.execute px call world).result = .err err → err.userCode = some .deadlineExceeded →
          ∃ r ∈ (Executor.execute px call world).attempts.getLast?, r.timedOut = true) ↔
      (world.Exhausts px call → ∀ i < call.maxRetries.toInt.toNat,
        ((world.attempts i).result px call).mentions = true →
          ((world.attempts (call.maxRetries.toInt.toNat - 1)).result px call).timedOut = true) := by
  constructor
  · intro survives exhausts i few mentioned
    obtain ⟨errs, ended⟩ := exhausted_iff.mpr exhausts
    obtain ⟨result, found⟩ := execute_exhausted ended
    have timeout := found.mpr ((mentions_iff exhausts).mpr ⟨i, few, mentioned⟩)
    refine (last_timedOut_iff exhausts (Nat.zero_lt_of_lt few)).mp (survives errs
      ⟨ascii "enclave quorum timeout: " ++ exhaustedText call.maxRetries errs,
        some .deadlineExceeded⟩ ended ?_ rfl)
    rw [result, concludeExecute, classified, errorf, timeout]
    rfl
  · intro last errs err ended returned isUser
    have exhausts := exhausted_iff.mp ⟨errs, ended⟩
    obtain ⟨result, found⟩ := execute_exhausted ended
    have mentioned : ∃ r ∈ (Executor.execute px call world).attempts, r.mentions = true := by
      rw [← found]
      by_contra absent
      rw [Bool.not_eq_true] at absent
      rw [result, concludeExecute, errorf, absent, Bool.and_false] at returned
      cases returned
      cases isUser
    obtain ⟨i, few, mentioned⟩ := (mentions_iff exhausts).mp mentioned
    exact (last_timedOut_iff exhausts (Nat.zero_lt_of_lt few)).mpr
      (last exhausts i few mentioned)

/-! ## Two executions -/

namespace Sample

/-- The DON of one member, as the executor has recorded it. -/
def soleMembership : MembershipState := ⟨false, [signer 1], 0⟩

def registryDown : RefreshWorld :=
  { registryUp with localNode := .error (ascii "unavailable") }

def plainExecutor : Executor := ⟨∅, ∅, false, true, 1, .newCache defaultCacheTTL⟩

/-- The vault cannot be asked, and the enclave does not get its quorum. -/
def quorumMissed : AttemptWorld where
  executor := plainExecutor
  refreshState := ⟨∅, 1, soleMembership⟩
  refresh := registryUp
  publicKeys := .ok [⟨⟨one (signer 9), one 0, one hour, soleConfig, ∅⟩, key 1⟩]
  now := 0
  later := 0
  vault := ⟨some (ascii "too large"), false, .disabled, .failed (errorf [])⟩
  sign message := .ok (sign 1 message)
  executeBatch _ _ := .error errQuorumTimeout

def twoAttempts (first second : AttemptWorld) : ExecuteWorld where
  initError := none
  allowed := true
  attempts i := if i = 0 then first else second
  cancelled _ := none

/-- A request with two attempts and the given secrets. -/
def executeCall (secrets : Slice SecretIdentifier) : ExecuteCall where
  protoBytes := some ∅
  secrets := secrets
  metadata := ⟨⟨ascii "e", by decide⟩, ∅, ⟨ascii "0", by decide⟩, ∅, 0⟩
  authHeader := none
  maxRetries := 2
  quorumTimeoutIsUserError := true

end Sample

section

open Sample

theorem quorum_timeout_in_both_attempts :
    let run := Executor.execute executorPlatform (executeCall ∅)
      (twoAttempts quorumMissed quorumMissed)
    ∃ errs err, run.ended = some (.exhausted errs) ∧ run.result = .err err ∧
      err.userCode = some .deadlineExceeded ∧
      ∃ r ∈ run.attempts.getLast?, r.timedOut = true := by
  let errs := List.replicate 2 (ascii "enclave quorum timeout: quorum_timeout")
  let err : ExecutorError := ⟨ascii "enclave quorum timeout: failed after 2 retries: " ++
    joinLines errs, some .deadlineExceeded⟩
  have ended : (Executor.execute executorPlatform (executeCall ∅)
      (twoAttempts quorumMissed quorumMissed)).ended =
        some (.exhausted errs) := by
    decide +kernel
  have result : (Executor.execute executorPlatform (executeCall ∅)
      (twoAttempts quorumMissed quorumMissed)).result = .err err := by
    decide +kernel
  exact ⟨errs, err, ended, result, rfl, (quorum_timeout_classified_iff _ _ _ rfl).mpr
    (fun _ _ _ _ => by decide +kernel) errs err ended result rfl⟩

/-- The quorum was missed in the first attempt only; the second did not get past the registry. -/
theorem quorum_timeout_overcome_classified :
    let run := Executor.execute executorPlatform (executeCall ∅) (twoAttempts quorumMissed
        { quorumMissed with refresh := registryDown })
    let errs := [ascii "enclave quorum timeout: quorum_timeout",
      ascii "failed to ensure fresh enclaves: failed to get local node: unavailable"]
    run.ended = some (.exhausted errs) ∧
      run.result = .err ⟨ascii "enclave quorum timeout: failed after 2 retries: " ++
        joinLines errs, some .deadlineExceeded⟩ ∧
      run.attempts.getLast?.map (·.timedOut) = some false := by
  decide +kernel

end

end ConfidentialCompute
