import ConfidentialCompute.Enclave.Execute
import ConfidentialCompute.Lib.Sorting

/-!
# The client side

`ExecuteBatch` of the enclave client's pool, the attestation check it makes on every
response, and `validateEnclaveSigners` of the capability executor. What comes back over
HTTP is the host's choice and is an argument.

The Nitro validator and the CBOR decoder behind `DescribeMeasurements` are third-party
code (`AttestationServices`). The URL, authorization header, extra data and region of a
pool node only shape the outgoing request and are left out.
-/

namespace ConfidentialCompute

open Go

/-! ## Attestation validation -/

inductive EnclaveType where
  | nitro | sgx | tdx | sev | fake
  | other (name : String)
deriving DecidableEq

/-- `ValidateAttestation attestation expectedUserData trustedMeasurements`. -/
abbrev AttestationValidator := Slice UInt8 → Bytes → Slice UInt8 → Except String Unit

structure AttestationServices where
  nitro : AttestationValidator
  describeMeasurements : Slice UInt8 → String

structure Enclave where
  enclaveID : Bytes32
  trustedValues : Slice (Slice UInt8)
  enclaveType : EnclaveType
deriving DecidableEq

def fakeAttestationDocument : Bytes := ascii "fake-attestation"

/-- User data and measurements are ignored. -/
def fakeValidateAttestation : AttestationValidator := fun attestation _ _ =>
  if attestation.data = fakeAttestationDocument then .ok ()
  else .error "invalid fake attestation"

def forEnclaveType (svc : AttestationServices) : EnclaveType → AttestationValidator
  | .fake => fakeValidateAttestation
  | _ => svc.nitro

/-- The inner loop over the trusted measurements, with the errors joined so far. -/
def tryMeasurements (validator : AttestationValidator) (attestation : Slice UInt8)
    (userData : Bytes) : List (Slice UInt8) → List String → Except (List String) Unit
  | [], validationErr => .error validationErr
  | measurements :: rest, validationErr =>
      match validator attestation userData measurements with
      | .error err => tryMeasurements validator attestation userData rest (validationErr ++ [err])
      | .ok _ => .ok ()

def validateAttestationAgainstEnclaves (svc : AttestationServices) (attestation : Slice UInt8)
    (userData : Bytes) : List Enclave → List String → Except (List String) Unit
  | [], validationErr => .error validationErr
  | enclave :: rest, validationErr =>
      match tryMeasurements (forEnclaveType svc enclave.enclaveType) attestation userData
          enclave.trustedValues.data validationErr with
      | .error validationErr =>
          validateAttestationAgainstEnclaves svc attestation userData rest validationErr
      | .ok _ => .ok ()

def validateAttestation (svc : AttestationServices) (enclave : Enclave) (userData : Bytes)
    (attestation : Slice UInt8) : Except String Unit :=
  match validateAttestationAgainstEnclaves svc attestation userData [enclave] [] with
  | .ok _ => .ok ()
  | .error errs =>
      let validationErr :=
        if errs = [] then "no trusted measurements configured" else "\n".intercalate errs
      let id := hexString enclave.enclaveID.data
      let received := svc.describeMeasurements attestation
      .error s!"attestation validation failed for enclave {id} (received {received}): {validationErr}"

/-! ## ExecuteBatch -/

/-- `%q` of a string of ASCII characters; other bytes are escaped one by one. -/
def quoted (b : Bytes) : String :=
  let char (x : UInt8) : List Char :=
    if x = 0x22 then ['\\', '"']
    else if x = 0x5c then ['\\', '\\']
    else if 0x20 ≤ x ∧ x < 0x7f then [Char.ofNat x.toNat]
    else if x = 0x0a then ['\\', 'n']
    else if x = 0x0d then ['\\', 'r']
    else if x = 0x09 then ['\\', 't']
    else if x = 0x07 then ['\\', 'a']
    else if x = 0x08 then ['\\', 'b']
    else if x = 0x0c then ['\\', 'f']
    else if x = 0x0b then ['\\', 'v']
    else ['\\', 'x', hexDigit (x.toNat / 16), hexDigit (x.toNat % 16)]
  String.ofList ('"' :: b.flatMap char ++ ['"'])

def maxEnclaveResponseBodyBytes : Nat := 10 * 2 ^ 20

/-- What the exchange with a node ends in. For a status other than 200, `parsed` is the
`Error` field if the body parses as an error response. -/
inductive NodeReply where
  | failed (err : String)
  | tooLarge
  | status (body : String) (parsed : Option String)
  | invalidJson (err : String)
  | response (out : ExecuteResponse)

/-- The goroutine for one request. `metrics` says whether the pool has an emitter; only
then is the error text of a failed request taken from the parsed body. -/
def executeOne (crypto : Crypto) (svc : AttestationServices) (metrics : Bool)
    (enclave : Enclave) (req : SignedComputeRequest) : NodeReply → Except String ExecuteResponse
  | .failed err => .error err
  | .tooLarge =>
      .error s!"enclave response body exceeds limit {maxEnclaveResponseBodyBytes} bytes"
  | .status body parsed =>
      match metrics, parsed with
      | true, some err =>
          if err ≠ "" then .error s!"execute failed: {err}" else .error s!"execute failed: {body}"
      | _, _ => .error s!"execute failed: {body}"
  | .invalidJson err => .error err
  | .response out =>
      match validateAttestation svc enclave (out.userDataHash crypto req.version)
          out.attestation with
      | .error err => .error s!"attestation validation failed for ExecuteBatch: {err}"
      | .ok _ =>
          let id := hexString enclave.enclaveID.data
          if out.requestHash ≠ req.hash crypto then
            let got := hexString out.requestHash.data
            let want := hexString (req.hash crypto).data
            .error s!"mismatched request hash in response from enclave {id}: got {got}, want {want}"
          else if req.version.data ≠ serviceConfidentialComputeVersionLegacy ∧
              out.applicationRequestID ≠ req.applicationRequestID then
            let got := quoted out.applicationRequestID.data
            let want := quoted req.applicationRequestID.data
            .error s!"mismatched application request ID in response from enclave {id}: got {got}, want {want}"
          else
            .ok out

/-- The pool nodes with the given IDs, or the first ID that is not in the pool. -/
def findEnclaves (nodes : List Enclave) : List Bytes32 → Except Bytes32 (List Enclave)
  | [] => .ok []
  | enclaveID :: rest =>
      match nodes.find? fun node => node.enclaveID = enclaveID with
      | none => .error enclaveID
      | some node => (findEnclaves nodes rest).map (node :: ·)

/-- All results, if none is an error. -/
def allResponses : List (Except String ExecuteResponse) → Except String (List ExecuteResponse)
  | [] => .ok []
  | .error err :: _ => .error err
  | .ok out :: rest => (allResponses rest).map (out :: ·)

def failure : Except String ExecuteResponse → Option String
  | .error err => some err
  | .ok _ => none

/-- `g.Wait()`: the error returned is that of the goroutine that failed first, where `order`
lists the goroutines as they end. -/
def wait (results : List (Except String ExecuteResponse)) (order : List Nat) :
    Except String (List ExecuteResponse) :=
  match allResponses results with
  | .ok responses => .ok responses
  | .error err =>
      .error ((order.findSome? fun i => results[i]?.bind failure).getD err)

/-- `reqs[i]` is read for every node before any exchange has ended. -/
def executeBatch (crypto : Crypto) (svc : AttestationServices) (metrics : Bool)
    (timeout : Except String Int) (nodes : List Enclave) (reqs : List SignedComputeRequest)
    (eIDs : List Bytes32) (replies : Nat → NodeReply) (order : List Nat) :
    Outcome String (List ExecuteResponse) :=
  match timeout with
  | .error err => .err err
  | .ok _ =>
      match findEnclaves nodes eIDs with
      | .error enclaveID =>
          let id := hexString enclaveID.data
          .err s!"enclaveID {id} not found in pool"
      | .ok enclaves =>
          if reqs.length < enclaves.length then .panicked
          else
            let results := (enclaves.zip reqs).mapIdx fun i pair =>
              executeOne crypto svc metrics pair.1 pair.2 (replies i)
            match wait results order with
            | .error err => .err err
            | .ok responses => .ok responses

/-! ## The configuration of a response -/

/-- A byte-sorted copy. -/
def sortedBytesCopy (s : List (Slice UInt8)) : List (Slice UInt8) :=
  s.mergeSort fun a b => bytesLE a.data b.data

def validateEnclaveSigners (members : List (Slice UInt8)) (f : UInt32) (config : EnclaveConfig) :
    Except String Unit :=
  if members.length = 0 then
    .error "cannot validate enclave config: DON members not set"
  else if config.f < f then
    let got := config.f.toNat
    let want := f.toNat
    .error s!"enclave F value {got} does not match DON F value {want}"
  else if sortedBytesCopy config.signers.data ≠ sortedBytesCopy members then
    let signers := config.signers.length
    let expected := members.length
    .error s!"enclave signers do not match DON members: enclave has {signers} signers, DON has {expected} members"
  else
    .ok ()

/-! ## What has been checked -/

section

variable {crypto : Crypto} {svc : AttestationServices} {metrics : Bool}
  {timeout : Except String Int} {nodes : List Enclave} {reqs : List SignedComputeRequest}
  {eIDs : List Bytes32} {replies : Nat → NodeReply} {order : List Nat}

theorem tryMeasurements_ok {validator : AttestationValidator} {attestation : Slice UInt8}
    {userData : Bytes} {trusted : List (Slice UInt8)} {errs : List String}
    (ok : tryMeasurements validator attestation userData trusted errs = .ok ()) :
    ∃ measurements ∈ trusted, validator attestation userData measurements = .ok () := by
  induction trusted generalizing errs with
  | nil => cases ok
  | cons measurements rest ih =>
      unfold tryMeasurements at ok
      split at ok
      · obtain ⟨found, member, accepted⟩ := ih ok
        exact ⟨found, List.mem_cons_of_mem _ member, accepted⟩
      · rename_i accepted
        exact ⟨measurements, List.mem_cons_self, accepted⟩

theorem validateAttestation_ok {enclave : Enclave} {userData : Bytes} {attestation : Slice UInt8}
    (ok : validateAttestation svc enclave userData attestation = .ok ()) :
    ∃ measurements ∈ enclave.trustedValues,
      forEnclaveType svc enclave.enclaveType attestation userData measurements = .ok () := by
  unfold validateAttestation at ok
  split at ok
  · rename_i accepted
    unfold validateAttestationAgainstEnclaves at accepted
    split at accepted
    · cases accepted
    · rename_i found
      exact tryMeasurements_ok found
  · cases ok

/-- An accepted response was sent, its attestation was accepted for its contents, and it
names the hash of the request. -/
theorem executeOne_ok {enclave : Enclave} {req : SignedComputeRequest} {reply : NodeReply}
    {out : ExecuteResponse} (ok : executeOne crypto svc metrics enclave req reply = .ok out) :
    reply = .response out ∧ out.requestHash = req.hash crypto ∧
      ∃ measurements ∈ enclave.trustedValues,
        forEnclaveType svc enclave.enclaveType out.attestation
          (out.userDataHash crypto req.version) measurements = .ok () := by
  cases reply with
  | failed err => cases ok
  | tooLarge => cases ok
  | status body parsed =>
      simp only [executeOne] at ok
      split at ok
      · split at ok <;> cases ok
      · cases ok
  | invalidJson err => cases ok
  | response sent =>
      simp only [executeOne] at ok
      split at ok
      · cases ok
      · rename_i validated
        split at ok
        · cases ok
        · rename_i hash
          split at ok
          · cases ok
          · cases ok
            exact ⟨rfl, not_not.mp hash, validateAttestation_ok validated⟩

theorem findEnclaves_ok {ids : List Bytes32} {enclaves : List Enclave}
    (ok : findEnclaves nodes ids = .ok enclaves) : ∀ enclave ∈ enclaves, enclave ∈ nodes := by
  induction ids generalizing enclaves with
  | nil =>
      cases ok
      simp
  | cons id ids ih =>
      unfold findEnclaves at ok
      split at ok
      · cases ok
      · rename_i node found
        cases rest : findEnclaves nodes ids with
        | error missing =>
            rw [rest] at ok
            cases ok
        | ok others =>
            rw [rest] at ok
            cases ok
            intro enclave member
            rcases List.mem_cons.mp member with rfl | member
            · exact List.mem_of_find?_eq_some found
            · exact ih rest enclave member

theorem allResponses_ok {results : List (Except String ExecuteResponse)}
    {responses : List ExecuteResponse} (ok : allResponses results = .ok responses) :
    results = responses.map .ok := by
  induction results generalizing responses with
  | nil =>
      cases ok
      rfl
  | cons result results ih =>
      cases result with
      | error err => cases ok
      | ok out =>
          unfold allResponses at ok
          cases rest : allResponses results with
          | error err =>
              rw [rest] at ok
              cases ok
          | ok others =>
              rw [rest] at ok
              cases ok
              rw [ih rest, List.map_cons]

/-- Every response `ExecuteBatch` returns was accepted by the goroutine of its request, at a
node of the pool. -/
theorem executeBatch_ok {responses : List ExecuteResponse} {i : Nat} {out : ExecuteResponse}
    {req : SignedComputeRequest}
    (ok : executeBatch crypto svc metrics timeout nodes reqs eIDs replies order = .ok responses)
    (request : reqs[i]? = some req) (response : responses[i]? = some out) :
    ∃ enclave ∈ nodes, executeOne crypto svc metrics enclave req (replies i) = .ok out := by
  unfold executeBatch at ok
  split at ok
  · cases ok
  · split at ok
    · cases ok
    · rename_i enclaves found
      split at ok
      · cases ok
      · dsimp only at ok
        split at ok
        · cases ok
        · rename_i waited
          cases ok
          unfold wait at waited
          split at waited
          · rename_i collected
            cases waited
            have results := congrArg (fun rs => rs[i]?) (allResponses_ok collected)
            simp only [List.getElem?_mapIdx, List.getElem?_map, response, Option.map_some,
              Option.map_eq_some_iff] at results
            obtain ⟨⟨enclave, req'⟩, zipped, accepted⟩ := results
            obtain ⟨atEnclave, atReq⟩ := List.getElem?_zip_eq_some.mp zipped
            rw [request] at atReq
            cases atReq
            have member := List.mem_of_getElem? atEnclave
            exact ⟨enclave, findEnclaves_ok found enclave member, accepted⟩
          · cases waited

theorem sortedBytesCopy_eq_iff {as bs : List (Slice UInt8)} :
    sortedBytesCopy as = sortedBytesCopy bs ↔ as.Perm bs :=
  mergeSort_eq_iff (fun a b c => bytesLE_trans a.data b.data c.data)
    (fun a b => Bool.or_eq_true_iff.mpr (bytesLE_total a.data b.data))
    fun _ _ first second => Slice.data_injective (bytesLE_antisymm first second)

theorem sortedBytesCopy_perm (as : List (Slice UInt8)) : (sortedBytesCopy as).Perm as :=
  List.mergeSort_perm as _

/-- A configuration is accepted for its signers, in any order, and an `F` that is no smaller. -/
theorem validateEnclaveSigners_ok_iff {members : List (Slice UInt8)} {f : UInt32}
    {config : EnclaveConfig} :
    validateEnclaveSigners members f config = .ok () ↔
      members ≠ [] ∧ config.signers.data.Perm members ∧ f ≤ config.f := by
  unfold validateEnclaveSigners
  by_cases unset : members.length = 0
  · simp [List.length_eq_zero_iff.mp unset]
  · have set : members ≠ [] := fun empty => unset (by rw [empty]; rfl)
    rw [if_neg unset]
    by_cases low : config.f < f
    · rw [if_pos low]
      exact ⟨nofun, fun ⟨_, _, bound⟩ => (UInt32.not_lt.mpr bound low).elim⟩
    · rw [if_neg low]
      by_cases same : sortedBytesCopy config.signers.data = sortedBytesCopy members
      · rw [if_neg (not_not.mpr same)]
        exact ⟨fun _ => ⟨set, sortedBytesCopy_eq_iff.mp same, UInt32.not_lt.mp low⟩, fun _ => rfl⟩
      · rw [if_pos same]
        exact ⟨nofun, fun ⟨_, perm, _⟩ => (same (sortedBytesCopy_eq_iff.mpr perm)).elim⟩

end

end ConfidentialCompute
