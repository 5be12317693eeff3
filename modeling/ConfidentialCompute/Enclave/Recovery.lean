import ConfidentialCompute.Enclave.Steps
import ConfidentialCompute.Hashing
import ConfidentialCompute.Sample

/-!
# Recovery of the secrets

A batch carries the decryption shares of several nodes, and some of them may be missing or
wrong. `handleExecute` tries the nodes in order and takes the secrets from the first whose
share sets all aggregate. A combiner that never returns anything but the plaintext makes the
result the same whichever node that is: it is determined by the signed part of the request.
-/

namespace ConfidentialCompute

open Go Runs

/-- What the combiner returns is the plaintext of the ciphertext. -/
def Platform.Decrypts (p : Platform) (plaintext : Slice UInt8 → Slice UInt8) : Prop :=
  ∀ ciphertext shares publicKey threshold secret,
    p.aggregateShares ciphertext shares publicKey threshold = .ok secret →
      secret = plaintext ciphertext

/-- What a node's shares come to: a share that the keypair decrypts counts with its plaintext,
in the order of the shares, and one that it does not decrypt is passed over. -/
inductive Opened (p : Platform) (kp : BoxKeypair) (now : Int) :
    List (Slice UInt8) → List (Slice UInt8) → Prop
  | nil : Opened p kp now [] []
  | kept {share opening : Slice UInt8} {shares opened : List (Slice UInt8)}
      (decrypted : kp.decrypt p.boxOpenAnonymous now share = .ok opening)
      (rest : Opened p kp now shares opened) :
      Opened p kp now (share :: shares) (opening :: opened)
  | skipped {share : Slice UInt8} {e : DecryptError} {shares opened : List (Slice UInt8)}
      (failed : kp.decrypt p.boxOpenAnonymous now share = .error e)
      (rest : Opened p kp now shares opened) : Opened p kp now (share :: shares) opened

/-- One share set for each ciphertext, and those of its shares that decrypt aggregate. -/
def Aggregates (p : Platform) (kp : BoxKeypair) (now : Int) (masterPublicKey : Slice UInt8)
    (threshold : Nat) : List (Slice UInt8) → List (Slice (Slice UInt8)) → Prop :=
  List.Forall₂ fun ciphertext shares => ∃ opened secret, Opened p kp now shares.data opened ∧
    p.aggregateShares ciphertext opened masterPublicKey threshold = .ok secret

/-- The names of the ciphertexts with their plaintexts. -/
def ComputeRequest.namedPlaintexts (plaintext : Slice UInt8 → Slice UInt8)
    (req : ComputeRequest) : List (GoString × Slice UInt8) :=
  req.ciphertextNames.data.zip (req.ciphertexts.data.map plaintext)

/-! ## The loops -/

section

variable {p : Platform} {plaintext : Slice UInt8 → Slice UInt8} {kp : BoxKeypair} {now : Int}
  {masterPublicKey : Slice UInt8} {threshold : Nat} {req : ComputeRequest}

/-- The loop over a share set hands the combiner exactly the shares that decrypt. -/
theorem opened_iff {shares : Slice (Slice UInt8)} {opened : List (Slice UInt8)} :
    Opened p kp now shares.data opened ↔ opened = decryptShares p kp now shares := by
  unfold decryptShares
  generalize shares.data = sent
  constructor
  · intro isOpened
    induction isOpened with
    | nil => rfl
    | kept decrypted _ ih => rw [List.filterMap_cons, decrypted, ih]; rfl
    | skipped failed _ ih => rw [List.filterMap_cons, failed, ih]; rfl
  · rintro rfl
    induction sent with
    | nil => exact .nil
    | cons share sent ih =>
        rw [List.filterMap_cons]
        cases outcome : kp.decrypt p.boxOpenAnonymous now share with
        | ok opening => exact .kept outcome ih
        | error e => exact .skipped outcome ih

theorem nodeSecrets_ok (decrypts : p.Decrypts plaintext) {ciphertexts : List (Slice UInt8)}
    {sets : List (Slice (Slice UInt8))}
    (aggregates : Aggregates p kp now masterPublicKey threshold ciphertexts sets)
    {names : List GoString} (named : names.length = ciphertexts.length) (acc : Secrets) :
    nodeSecrets p kp now masterPublicKey threshold ciphertexts sets names acc =
      .ok (storeAll acc (names.zip (ciphertexts.map plaintext))) := by
  induction aggregates generalizing names acc with
  | nil =>
      rw [List.map_nil, List.zip_nil_right]
      rfl
  | @cons ciphertext shares ciphertexts sets head _ ih =>
      obtain ⟨opened, secret, isOpened, aggregated⟩ := head
      rw [opened_iff.mp isOpened] at aggregated
      cases names with
      | nil => cases named
      | cons name names =>
          unfold nodeSecrets
          rw [aggregated]
          dsimp only
          rw [ih (Nat.succ.inj named), decrypts _ _ _ _ _ aggregated]
          rfl

theorem nodeSecrets_err {ciphertexts : List (Slice UInt8)} {sets : List (Slice (Slice UInt8))}
    (counted : sets.length = ciphertexts.length)
    (fails : ¬ Aggregates p kp now masterPublicKey threshold ciphertexts sets)
    {names : List GoString} (named : names.length = ciphertexts.length) (acc : Secrets) :
    ∃ e, nodeSecrets p kp now masterPublicKey threshold ciphertexts sets names acc = .err e := by
  induction ciphertexts generalizing sets names acc with
  | nil =>
      rw [List.length_eq_zero_iff.mp counted] at fails
      exact (fails .nil).elim
  | cons ciphertext ciphertexts ih =>
      cases sets with
      | nil => cases counted
      | cons shares sets =>
          cases names with
          | nil => cases named
          | cons name names =>
              unfold nodeSecrets
              split
              · exact ⟨_, rfl⟩
              · rename_i secret aggregated
                have rest : ¬ Aggregates p kp now masterPublicKey threshold ciphertexts sets :=
                  fun aggregates =>
                    fails (.cons ⟨_, secret, opened_iff.mpr rfl, aggregated⟩ aggregates)
                exact ih (Nat.succ.inj counted) rest (Nat.succ.inj named) _

/-- If some node's shares aggregate, the secrets are those of the request, whatever nodes
come before. -/
theorem recoverSecrets_ok (decrypts : p.Decrypts plaintext)
    (named : req.ciphertextNames.length = req.ciphertexts.length)
    {nodes : List SignedComputeRequest}
    (usable : ∃ node ∈ nodes, Aggregates p kp now masterPublicKey threshold
      req.ciphertexts.data node.encryptedDecryptionKeyShares.data)
    (nodeIdx : Nat) (lastErr : Option String) :
    recoverSecrets p kp now req masterPublicKey threshold nodeIdx nodes lastErr =
      .ok (storeAll ∅ (req.namedPlaintexts plaintext)) := by
  induction nodes generalizing nodeIdx lastErr with
  | nil =>
      obtain ⟨node, member, _⟩ := usable
      cases member
  | cons node nodes ih =>
      unfold recoverSecrets
      dsimp only
      by_cases aggregates : Aggregates p kp now masterPublicKey threshold req.ciphertexts.data
          node.encryptedDecryptionKeyShares.data
      · have counted : node.encryptedDecryptionKeyShares.length = req.ciphertexts.length :=
          aggregates.length_eq.symm
        rw [if_neg (not_not.mpr counted), nodeSecrets_ok decrypts aggregates named]
        rfl
      · have later : ∃ node ∈ nodes, Aggregates p kp now masterPublicKey threshold
            req.ciphertexts.data node.encryptedDecryptionKeyShares.data := by
          obtain ⟨other, member, aggregates'⟩ := usable
          rcases List.mem_cons.mp member with rfl | member
          · exact (aggregates aggregates').elim
          · exact ⟨other, member, aggregates'⟩
        split
        · exact ih later _ _
        · rename_i counted
          obtain ⟨e, failed⟩ := nodeSecrets_err (not_not.mp counted) aggregates named ∅
          rw [failed]
          exact ih later _ _

/-- If no node's shares aggregate, an error of the last node is reported. -/
theorem recoverSecrets_err (named : req.ciphertextNames.length = req.ciphertexts.length)
    {nodes : List SignedComputeRequest}
    (unusable : ∀ node ∈ nodes, ¬ Aggregates p kp now masterPublicKey threshold
      req.ciphertexts.data node.encryptedDecryptionKeyShares.data)
    (nodeIdx : Nat) (lastErr : Option String) (reported : nodes ≠ [] ∨ lastErr ≠ none) :
    ∃ e, recoverSecrets p kp now req masterPublicKey threshold nodeIdx nodes lastErr =
      .err e := by
  induction nodes generalizing nodeIdx lastErr with
  | nil =>
      cases lastErr with
      | none => simp at reported
      | some e => exact ⟨e, rfl⟩
  | cons node nodes ih =>
      have later := fun other member => unusable other (List.mem_cons_of_mem node member)
      unfold recoverSecrets
      dsimp only
      split
      · exact ih later _ _ (Or.inr (Option.some_ne_none _))
      · rename_i counted
        obtain ⟨e, failed⟩ := nodeSecrets_err (not_not.mp counted)
          (unusable node List.mem_cons_self) named ∅
        rw [failed]
        exact ih later _ _ (Or.inr (Option.some_ne_none _))

end

/-! ## The goroutine -/

/-- The share sets that a request carries aggregate, under the keypair, the master public
key and the threshold that the goroutine uses. -/
def ExecCall.Usable (p : Platform) (call : ExecCall) (kp : BoxKeypair) (now : Int)
    (node : SignedComputeRequest) : Prop :=
  Aggregates p kp now (effectiveMasterPublicKey call.config call.req.toComputeRequest)
    call.config.t.toNat call.req.ciphertexts.data node.encryptedDecryptionKeyShares.data

section

variable {p : Platform} {plaintext : Slice UInt8 → Slice UInt8} {kp : BoxKeypair} {now : Int}
  {call : ExecCall}

theorem combine_running (decrypts : p.Decrypts plaintext)
    (named : call.req.ciphertextNames.length = call.req.ciphertexts.length)
    (usable : ∃ node ∈ call.reqs, call.Usable p kp now node) :
    EnclaveServer.combine p now call kp =
      .running (storeAll ∅ (call.req.namedPlaintexts plaintext)) := by
  unfold EnclaveServer.combine
  rw [recoverSecrets_ok decrypts named usable]

theorem combine_failed (named : call.req.ciphertextNames.length = call.req.ciphertexts.length)
    (unusable : ¬ ∃ node ∈ call.reqs, call.Usable p kp now node) :
    ∃ message, EnclaveServer.combine p now call kp =
      .unmark (.error statusInternalServerError message) := by
  have none_ : ∀ node ∈ call.reqs, ¬ call.Usable p kp now node :=
    fun node member usable => unusable ⟨node, member, usable⟩
  obtain ⟨e, failed⟩ := recoverSecrets_err named none_ 0 none (Or.inl (List.cons_ne_nil _ _))
  unfold EnclaveServer.combine
  rw [failed]
  exact ⟨_, rfl⟩

theorem usable_of_running (named : call.req.ciphertextNames.length = call.req.ciphertexts.length)
    {secrets : Secrets} (running : EnclaveServer.combine p now call kp = .running secrets) :
    ∃ node ∈ call.reqs, call.Usable p kp now node := by
  by_contra unusable
  obtain ⟨message, failed⟩ := combine_failed named unusable
  rw [failed] at running
  cases running

end

theorem lookupKeyPair_cases (s : EnclaveServer) (now : Int) (call : ExecCall) :
    (∃ reply, s.lookupKeyPair now call = .unmark reply) ∨
      ∃ kp, s.lookupKeyPair now call = .combineShares kp := by
  unfold EnclaveServer.lookupKeyPair
  split
  · exact Or.inl ⟨_, rfl⟩
  · split
    · exact Or.inl ⟨_, rfl⟩
    · exact Or.inr ⟨_, rfl⟩

/-- The batch of a goroutine has one hash, and its first request has passed the checks on
its fields by the time the shares are combined. -/
structure Checked (crypto : Crypto) (s : EnclaveServer) : Prop where
  hashes : ∀ id call, s.calls.lookup id = some call →
    ∀ req ∈ call.reqs, req.hash crypto = call.hash
  fields : ∀ id call, s.calls.lookup id = some call → ∀ kp, call.pc = .combineShares kp →
    checkFields call.req.toComputeRequest = none

namespace Checked

variable {p : Platform} {s s' : EnclaveServer} {now : Int} {id : Nat} {call : ExecCall}
  {l : EnclaveLabel}

theorem lookupKeyPair_checked {kp : BoxKeypair}
    (found : s.lookupKeyPair now call = .combineShares kp) :
    checkFields call.req.toComputeRequest = none := by
  unfold EnclaveServer.lookupKeyPair at found
  split at found
  · cases found
  · assumption

/-- A goroutine keeps its batch. It combines shares only after the checks, and it hands to the
app what it has combined. -/
theorem callStep_checked {input : CallInput} (taken : s.callStep p now id call input = some s') :
    ∃ pc output, s'.calls = s.calls.insert id { call with pc := pc, output := output } ∧
      (∀ kp, pc = .combineShares kp → checkFields call.req.toComputeRequest = none) ∧
      ∀ secrets, pc = .running secrets →
        ∃ kp, call.pc = .combineShares kp ∧
          EnclaveServer.combine p now call kp = .running secrets := by
  unfold EnclaveServer.callStep at taken
  split at taken
  case h_4 =>
    cases taken
    refine ⟨_, call.output, rfl, fun kp => lookupKeyPair_checked, fun secrets at_ => ?_⟩
    rcases lookupKeyPair_cases s now call with ⟨_, looked⟩ | ⟨_, looked⟩
    all_goals
      rw [looked] at at_
      cases at_
  case h_5 =>
    rename_i kp keyed
    cases taken
    refine ⟨_, call.output, rfl, fun kp at_ => ?_, fun secrets at_ => ⟨kp, keyed, at_⟩⟩
    unfold EnclaveServer.combine at at_
    split at at_ <;> cases at_
  case h_1 | h_3 =>
    split at taken
    all_goals
      cases taken
      exact ⟨_, call.output, rfl, fun _ => ExecPC.noConfusion, fun _ => ExecPC.noConfusion⟩
  case h_10 =>
    dsimp only at taken
    split at taken
    all_goals
      cases taken
      exact ⟨_, call.output, rfl, fun _ => ExecPC.noConfusion, fun _ => ExecPC.noConfusion⟩
  case h_13 => cases taken
  all_goals
    cases taken
    exact ⟨_, _, rfl, fun _ => ExecPC.noConfusion, fun _ => ExecPC.noConfusion⟩

/-- **One step keeps the batches checked.** -/
theorem step (inv : Checked p.toCrypto s) (taken : s.step p l = some s') :
    Checked p.toCrypto s' := by
  refine ⟨EnclaveServer.step_calls ?_ ?_ inv.hashes taken,
    EnclaveServer.step_calls ?_ ?_ inv.fields taken⟩
  · exact fun config req rest admitted => admitted.hashes
  · intro s s' id call input hashes moved
    obtain ⟨pc, output, calls, _⟩ := callStep_checked moved
    exact ⟨_, calls, hashes⟩
  · intro config req rest _ kp at_
    cases at_
  · intro s s' id call input _ moved
    obtain ⟨pc, output, calls, checked, _⟩ := callStep_checked moved
    exact ⟨_, calls, checked⟩

theorem of_run {config : EnclaveConfig} {allowReconfig appConfigurable : Bool}
    {keychain : BoxKeychain} {start : Int} {ls : List EnclaveLabel}
    (run : Run (EnclaveServer.step p) anyStep
      (.newEnclaveServer config allowReconfig appConfigurable keychain start) ls s) :
    Checked p.toCrypto s := by
  refine run.invariant ⟨?_, ?_⟩ fun _ _ _ inv _ taken => inv.step taken
  all_goals
    intro id call found
    cases found

end Checked

theorem checkFields_counted {req : ComputeRequest} (checked : checkFields req = none) :
    req.ciphertextNames.length = req.ciphertexts.length := by
  unfold checkFields at checked
  split at checked
  · cases checked
  · rename_i counted
    exact (not_not.mp counted).symm

/-- A goroutine combines shares after the checks, and is inside the app with what it has
combined. -/
structure ExecCall.Combined (p : Platform) (call : ExecCall) : Prop where
  fields : ∀ kp, call.pc = .combineShares kp → checkFields call.req.toComputeRequest = none
  secrets : ∀ secrets, call.pc = .running secrets →
    checkFields call.req.toComputeRequest = none ∧
      ∃ kp now, EnclaveServer.combine p now call kp = .running secrets

section

variable {p : Platform} {s : EnclaveServer} {config : EnclaveConfig}
  {allowReconfig appConfigurable : Bool} {keychain : BoxKeychain} {start : Int}
  {ls : List EnclaveLabel}

theorem combined_of_run (run : Run (EnclaveServer.step p) anyStep
      (.newEnclaveServer config allowReconfig appConfigurable keychain start) ls s) :
    ∀ id call, s.calls.lookup id = some call → call.Combined p := by
  refine run.invariant ?_ fun s l s' all _ taken => EnclaveServer.step_calls ?_ ?_ all taken
  · intro id call found
    cases found
  · exact fun config req rest _ => ⟨fun _ => ExecPC.noConfusion, fun _ => ExecPC.noConfusion⟩
  · intro s s' id call input inv moved
    obtain ⟨pc, output, calls, checked, combined⟩ := Checked.callStep_checked moved
    refine ⟨_, calls, checked, fun secrets at_ => ?_⟩
    obtain ⟨kp, keyed, running⟩ := combined secrets at_
    exact ⟨inv.fields kp keyed, kp, l.now, running⟩

/-- **What the app is given.** A goroutine inside the app has as many names as ciphertexts,
and it has stored the plaintexts one after the other under their names. -/
theorem running_secrets {plaintext : Slice UInt8 → Slice UInt8} (decrypts : p.Decrypts plaintext)
    (run : Run (EnclaveServer.step p) anyStep
      (.newEnclaveServer config allowReconfig appConfigurable keychain start) ls s)
    {id : Nat} {call : ExecCall} (found : s.calls.lookup id = some call) {secrets : Secrets}
    (running : call.pc = .running secrets) :
    call.req.ciphertextNames.length = call.req.ciphertexts.length ∧
      secrets = storeAll ∅ (call.req.namedPlaintexts plaintext) := by
  obtain ⟨checked, kp, now, combined⟩ :=
    (combined_of_run run id call found).secrets secrets running
  have named := checkFields_counted checked
  refine ⟨named, ?_⟩
  rw [combine_running decrypts named (usable_of_running named combined)] at combined
  exact (ExecPC.running.inj combined).symm

end

namespace Sample

theorem decrypts : platform.Decrypts id := by
  intro ciphertext shares publicKey threshold secret aggregated
  dsimp only [platform] at aggregated
  split at aggregated
  · cases aggregated
    rfl
  · cases aggregated

end Sample

section

open Sample

end

end ConfidentialCompute
