import ConfidentialCompute.Enclave.ConfigRequests
import ConfidentialCompute.Executor.Refresh
import ConfidentialCompute.Host.ConfigSync

/-!
# The configuration tracker

`checkUpdates` of the configuration tracker reads the membership of the DON from the registry and
the configuration of the enclave from `/publicKeys`, and posts a new configuration if the signers
or `F` differ. Node IDs and signers are sorted before they are compared. An enclave without a
configuration answers 503, which counts as an empty one.

What the registry and the endpoints answer is an argument. The quorum that the tracker computes is
logged and has no other use.
-/

namespace ConfidentialCompute

open Go

/-! ## The code -/

structure ConfigTracker where
  initialT : UInt32
  initialMasterPublicKey : Slice UInt8

/-- `CapabilitiesRegistryDONInfo`. -/
structure DONInfo where
  nodeP2PIds : Slice Bytes32
  f : UInt8

/-- The body of an answer of `/publicKeys`: it cannot be read to its end, it exceeds the limit, it
is no JSON text of a response, or it is one. -/
inductive KeysBody where
  | unreadable (err : Bytes)
  | tooLong
  | malformed (body err : Bytes)
  | decoded (resp : PublicKeyResponse)

inductive KeysAnswer where
  | unbuilt (err : Bytes)
  | failed (err : Bytes)
  | responded (statusCode : Nat) (body : KeysBody)

/-- The configuration that an answer reports. -/
def KeysAnswer.config : KeysAnswer → Except Bytes EnclaveConfig
  | .unbuilt err => .error (ascii "failed to create enclave config request: " ++ err)
  | .failed err => .error (ascii "failed to fetch enclave config: " ++ err)
  | .responded statusCode body =>
      if statusCode = statusOK then
        match body with
        | .unreadable err => .error (ascii "failed to read response body: " ++ err)
        | .tooLong =>
            .error (ascii "enclave config response body exceeds limit " ++
              decimal maxEnclaveResponseBodyBytes ++ ascii " bytes")
        | .malformed text err =>
            .error (ascii "failed to unmarshal enclave response (status " ++ decimal statusCode ++
              ascii ", body: " ++ text ++ ascii "): " ++ err)
        | .decoded resp => .ok resp.config
      else if statusCode = statusServiceUnavailable then .ok .zero
      else
        .error (ascii "enclave config endpoint returned non-200 status: " ++ decimal statusCode)

namespace ConfigTracker

/-- The configuration posted in place of `current`. -/
def update (ct : ConfigTracker) (donNodeIds : Slice (Slice UInt8)) (requiredF : UInt32)
    (current : EnclaveConfig) : EnclaveConfig where
  signers := donNodeIds
  masterPublicKey :=
    if current.masterPublicKey.length = 0 then ct.initialMasterPublicKey
    else current.masterPublicKey
  t := if current.t = 0 then ct.initialT else current.t
  f := requiredF

end ConfigTracker

/-! ## What is posted -/

section

variable {ct : ConfigTracker} {don don' : DONInfo} {answer answer' : KeysAnswer}
  {current current' config : EnclaveConfig} {post : EnclaveConfig → PostAnswer}

end

/-! ## What the enclave does with it -/

/-- An answer that the enclave may give to a GET of `/publicKeys`: what it reports, if it reports a
configuration, is the one in force. -/
def EnclaveServer.Reports (s : EnclaveServer) (answer : KeysAnswer) : Prop :=
  ∀ config, answer.config = .ok config → config = s.config

namespace Sample

/-- A DON of two nodes, the greater ID first. -/
def don : DONInfo := ⟨⟨[key 2, key 1], by decide⟩, 1⟩

end Sample

end ConfidentialCompute
