import ConfidentialCompute.Client
import ConfidentialCompute.Lib.TextCodec
import ConfidentialCompute.RelayQuorum

/-!
# Canonical capability responses

`CallCapability` of the workflows app's dispatcher takes the responses of the relay nodes, groups
them by a canonical form and returns the first validly signed response of the group that reaches
quorum. The canonical form of a consensus report leaves out the report's signatures, which differ
from node to node. It is built anew from the report, so it also leaves out what the report was
wrapped in: the type URL and the unknown fields of the response and of the `Any` message.

Protobuf is third-party code (`Protobuf`), of which it is only assumed that decoding inverts
encoding and that a report wrapped in an `Any` message is recognised as one. So is the hash of a
result, which is a parameter; it depends on the parameters of the request. What is sent to the
gateway is left out, and its reply is an argument.
-/

namespace ConfidentialCompute

open Go

/-! ## Messages -/

/-- `anypb.Any`. -/
structure AnyMessage where
  typeURL : Bytes
  value : Bytes
  unknownFields : Bytes
deriving DecidableEq

/-- The `Response` field of `sdkpb.CapabilityResponse`. -/
inductive ResponseField where
  | unset
  | error (text : Bytes)
  | payload (message : AnyMessage)
deriving DecidableEq

structure CapabilityResponse where
  response : ResponseField
  unknownFields : Bytes
deriving DecidableEq

structure AttributedSignature where
  signature : Bytes
  signerID : UInt32
  unknownFields : Bytes
deriving DecidableEq

structure ReportResponse where
  configDigest : Bytes
  seqNr : UInt64
  reportContext : Bytes
  rawReport : Bytes
  sigs : List AttributedSignature
  unknownFields : Bytes
deriving DecidableEq

/-- The report without its signatures. -/
def ReportResponse.body (report : ReportResponse) : ReportResponse := { report with sigs := [] }

/-- `proto.Marshal`, deterministic, and `proto.Unmarshal` for the two messages. Of an `Any`
message, `messageIs` is what `MessageIs` says for a report by the type URL, and `reportURL` the
type URL that `MarshalFrom` sets for one. -/
structure Protobuf where
  messageIs : Bytes → Bool
  reportURL : Bytes
  marshalResponse : CapabilityResponse → Except String Bytes
  unmarshalResponse : Bytes → Except String CapabilityResponse
  marshalReport : ReportResponse → Except String Bytes
  unmarshalReport : Bytes → Except String ReportResponse
  unmarshalResponse_marshal : ∀ resp raw, marshalResponse resp = .ok raw →
    unmarshalResponse raw = .ok resp
  unmarshalReport_marshal : ∀ report raw, marshalReport report = .ok raw →
    unmarshalReport raw = .ok report
  messageIs_reportURL : messageIs reportURL = true

/-- `confidentialrelay.CapabilityResponseResult`. -/
structure CapabilityResponseResult where
  payload : Bytes
  error : Bytes
deriving DecidableEq

structure SignedCapabilityResponseResult where
  result : CapabilityResponseResult
  signature : RelayResponseSignature
deriving DecidableEq

/-- `Result.Hash(params)`, for the parameters of the request. -/
abbrev ResultHash := CapabilityResponseResult → Except String Bytes32

inductive PayloadError where
  | base64 (offset : Nat)
  | proto (err : String)
deriving DecidableEq

def PayloadError.base64Text (offset : Nat) : String :=
  s!"illegal base64 data at input byte {offset}"

def decodePayload (pb : Protobuf) (payload : Bytes) : Except PayloadError CapabilityResponse :=
  match Base64.decodeFrom payload 0 [] with
  | .error offset => .error (.base64 offset)
  | .ok raw =>
      match pb.unmarshalResponse raw with
      | .error err => .error (.proto err)
      | .ok resp => .ok resp

/-- The report that a response holds, if it holds one. -/
def CapabilityResponse.report (pb : Protobuf) (resp : CapabilityResponse) :
    Except String (Option ReportResponse) :=
  match resp.response with
  | .payload inner =>
      if pb.messageIs inner.typeURL then (pb.unmarshalReport inner.value).map some else .ok none
  | _ => .ok none

/-! ## Canonical payloads -/

/-- A report in a response that holds nothing else. -/
def wrapReport (pb : Protobuf) (report : ReportResponse) : Except String Bytes :=
  match pb.marshalReport report with
  | .error err => .error s!"marshalling report response: {err}"
  | .ok value =>
      match pb.marshalResponse ⟨.payload ⟨pb.reportURL, value, []⟩, []⟩ with
      | .error err => .error s!"marshalling capability response: {err}"
      | .ok out => .ok (Base64.encode out)

/-- There is no canonical payload if the payload needs no rewrite. -/
def canonicalCapabilityPayload (pb : Protobuf) (payload : Bytes) : Except String (Option Bytes) :=
  match decodePayload pb payload with
  | .error (.base64 offset) =>
      let err := PayloadError.base64Text offset
      .error s!"decoding payload: {err}"
  | .error (.proto err) => .error s!"unmarshalling capability response: {err}"
  | .ok resp =>
      match resp.report pb with
      | .error err => .error s!"unmarshalling report response: {err}"
      | .ok none => .ok none
      | .ok (some report) => (wrapReport pb report.body).map some

/-! ## Diagnostics -/

def maxDiagFieldLen : Nat := 160

def truncateDiag (text : Bytes) : Bytes :=
  if text.length ≤ maxDiagFieldLen then text
  else text.take maxDiagFieldLen ++ ascii "...truncated"

def digestOf (crypto : Crypto) (b : Bytes) : String :=
  if b.length = 0 then "empty" else shortHash (crypto.sha256 b)

def slash : UInt8 := 0x2f

/-- The part after the last slash; exact on ASCII text. -/
def shortTypeURL (url : Bytes) : String :=
  String.ofList ((url.reverse.takeWhile (· ≠ slash)).reverse.map fun b => Char.ofNat b.toNat)

def describeReport (crypto : Crypto) (report : ReportResponse) : List String :=
  let configDigest := digestOf crypto report.configDigest
  let seqNr := report.seqNr.toNat
  let reportContext := digestOf crypto report.reportContext
  let size := report.rawReport.length
  let rawReport := digestOf crypto report.rawReport
  let count := report.sigs.length
  let sigs := ",".intercalate (report.sigs.map fun s =>
    let id := s.signerID.toNat
    let signature := digestOf crypto s.signature
    s!"{id}/{signature}")
  [s!"configDigest={configDigest}", s!"seqNr={seqNr}", s!"reportContext={reportContext}",
    s!"rawReport={size}B/{rawReport}", s!"sigs={count}[{sigs}]"]

def describeResponse (pb : Protobuf) (crypto : Crypto) (resp : CapabilityResponse) :
    List String :=
  match resp.response with
  | .unset => []
  | .error text =>
      let err := quoted (truncateDiag text)
      if text = [] then [] else [s!"responseError={err}"]
  | .payload inner =>
      let type := shortTypeURL inner.typeURL
      s!"type={type}" ::
        match resp.report pb with
        | .error err => [s!"report=unparseable({err})"]
        | .ok none => []
        | .ok (some report) => describeReport crypto report

def describeCapabilityResult (pb : Protobuf) (crypto : Crypto)
    (result : CapabilityResponseResult) : String :=
  let err := quoted (truncateDiag result.error)
  let failed := if result.error = [] then [] else [s!"resultError={err}"]
  let rest :=
    match Base64.decodeFrom result.payload 0 [] with
    | .error offset =>
        let err := PayloadError.base64Text offset
        [s!"payload=undecodable({err})"]
    | .ok raw =>
        let size := raw.length
        let digest := digestOf crypto raw
        s!"payload={size}B/{digest}" ::
          if raw.length = 0 then []
          else
            match pb.unmarshalResponse raw with
            | .error err => [s!"payload=unparseable({err})"]
            | .ok resp => describeResponse pb crypto resp
  " ".intercalate (failed ++ rest)

/-! ## Entries -/

/-- The hash a response is grouped by, and what the diagnostics say of it. -/
def groupOf (pb : Protobuf) (hash : ResultHash) (result : CapabilityResponseResult)
    (sigHash : Bytes32) : Bytes32 × String :=
  match canonicalCapabilityPayload pb result.payload with
  | .error err => (sigHash, s!" canonical=failed({err})")
  | .ok none => (sigHash, "")
  | .ok (some canonical) =>
      match hash { result with payload := canonical } with
      | .error err => (sigHash, s!" canonical=unhashable({err})")
      | .ok h => (h, " canonical=reportSigsExcluded")

def capabilityEntry (pb : Protobuf) (crypto : Crypto) (hash : ResultHash) (i : Nat)
    (r : SignedCapabilityResponseResult) (sigHash : Bytes32) : RelayEntry :=
  let group := groupOf pb hash r.result sigHash
  ⟨sigHash, group.1, r.signature, describeCapabilityResult pb crypto r.result ++ group.2, i⟩

/-- The entries and the diagnostics of what is skipped, from position `i` on. -/
def capabilityEntries (pb : Protobuf) (crypto : Crypto) (hash : ResultHash) :
    Nat → List SignedCapabilityResponseResult → List RelayEntry × List String
  | _, [] => ([], [])
  | i, r :: rest =>
      let later := capabilityEntries pb crypto hash (i + 1) rest
      match hash r.result with
      | .error err =>
          let desc := describeCapabilityResult pb crypto r.result
          (later.1, s!"[idx={i} unhashable={err} {desc}]" :: later.2)
      | .ok sigHash => (capabilityEntry pb crypto hash i r sigHash :: later.1, later.2)

/-! ## CallCapability -/

/-- What the exchange with the gateway ends in, retries included. `failed` also stands for a
request that could not be built or attested. -/
inductive CapabilityReply where
  | failed (err : String)
  | invalidJson (err : String)
  | bundle (responses : List SignedCapabilityResponseResult)

/-- What the dispatcher and the request have fixed before the reply arrives. -/
structure CapabilityCall where
  pb : Protobuf
  relay : Relay
  hash : ResultHash
  verifier : Bool
  order : MapOrder Bytes32 (Finset Bytes32)
  cfg : EnclaveConfig

def CapabilityCall.entries (call : CapabilityCall)
    (responses : List SignedCapabilityResponseResult) : List RelayEntry :=
  (capabilityEntries call.pb call.relay.toCrypto call.hash 0 responses).1

def CapabilityCall.skipped (call : CapabilityCall)
    (responses : List SignedCapabilityResponseResult) : List String :=
  (capabilityEntries call.pb call.relay.toCrypto call.hash 0 responses).2

/-- The quorum selection over a bundle. -/
def CapabilityCall.select (call : CapabilityCall)
    (responses : List SignedCapabilityResponseResult) : Outcome QuorumError Nat :=
  selectQuorumResult call.relay call.verifier call.order responses.length
    (call.skipped responses) (call.entries responses) call.cfg

/-- The response that a result stands for. -/
def CapabilityResponseResult.decoded (pb : Protobuf) (result : CapabilityResponseResult) :
    Except String CapabilityResponse :=
  if result.error ≠ [] then .ok ⟨.error result.error, []⟩
  else
    match decodePayload pb result.payload with
    | .error (.base64 offset) =>
        let err := PayloadError.base64Text offset
        .error s!"decoding capability response payload: {err}"
    | .error (.proto err) => .error s!"unmarshalling capability response proto: {err}"
    | .ok resp => .ok resp

def CapabilityCall.callCapability (call : CapabilityCall) :
    CapabilityReply → Outcome String CapabilityResponse
  | .failed err => .err err
  | .invalidJson err => .err s!"unmarshalling capability response bundle: {err}"
  | .bundle responses =>
      match call.select responses with
      | .panicked => .panicked
      | .err qErr =>
          let err := qErr.message
          .err s!"verifying capability response: {err}"
      | .ok idx =>
          match responses[idx]? with
          | none => .panicked
          | some r =>
              match r.result.decoded call.pb with
              | .error err => .err err
              | .ok resp => .ok resp

/-! ## Agreement -/

/-- What a report is wrapped in: the unknown fields of the response, and the type URL and the
unknown fields of the `Any` message. -/
def CapabilityResponse.wrapping (resp : CapabilityResponse) : Bytes × Option (Bytes × Bytes) :=
  match resp.response with
  | .payload inner => (resp.unknownFields, some (inner.typeURL, inner.unknownFields))
  | _ => (resp.unknownFields, none)

/-- Reports that differ in their signatures only, whatever they are wrapped in. -/
def CapabilityResponse.SameBody (pb : Protobuf) (resp resp' : CapabilityResponse) : Prop :=
  ∃ report report', resp.report pb = .ok (some report) ∧ resp'.report pb = .ok (some report') ∧
    report.body = report'.body

/-- Agreement in every part except a report's signatures. -/
def CapabilityResponse.SameButSigs (pb : Protobuf) (resp resp' : CapabilityResponse) : Prop :=
  resp = resp' ∨ resp.SameBody pb resp' ∧ resp.wrapping = resp'.wrapping

/-- Results with one error and, if they differ, related responses. -/
def CapabilityResponseResult.Agrees (pb : Protobuf)
    (related : CapabilityResponse → CapabilityResponse → Prop)
    (result result' : CapabilityResponseResult) : Prop :=
  result.error = result'.error ∧ (result.payload = result'.payload ∨
    ∃ resp resp', decodePayload pb result.payload = .ok resp ∧
      decodePayload pb result'.payload = .ok resp' ∧ related resp resp')

def CapabilityResponseResult.SameButSigs (pb : Protobuf)
    (result result' : CapabilityResponseResult) : Prop :=
  result.Agrees pb (CapabilityResponse.SameButSigs pb) result'

section

variable {pb : Protobuf} {resp resp' resp'' : CapabilityResponse}
  {result result' : CapabilityResponseResult}
  {related : CapabilityResponse → CapabilityResponse → Prop}

theorem CapabilityResponse.SameBody.symm (same : resp.SameBody pb resp') :
    resp'.SameBody pb resp := by
  obtain ⟨report, report', found, found', body⟩ := same
  exact ⟨report', report, found', found, body.symm⟩

theorem CapabilityResponse.SameBody.trans (same : resp.SameBody pb resp')
    (same' : resp'.SameBody pb resp'') : resp.SameBody pb resp'' := by
  obtain ⟨report, report', found, found', body⟩ := same
  obtain ⟨again, report'', foundAgain, found'', body'⟩ := same'
  rw [found'] at foundAgain
  cases foundAgain
  exact ⟨report, report'', found, found'', body.trans body'⟩

theorem CapabilityResponse.SameButSigs.symm (same : resp.SameButSigs pb resp') :
    resp'.SameButSigs pb resp := by
  rcases same with equal | ⟨body, wrapping⟩
  · exact Or.inl equal.symm
  · exact Or.inr ⟨body.symm, wrapping.symm⟩

theorem CapabilityResponseResult.SameButSigs.symm (same : result.SameButSigs pb result') :
    result'.SameButSigs pb result := by
  obtain ⟨error, equal | ⟨resp, resp', decoded, decoded', related⟩⟩ := same
  · exact ⟨error.symm, Or.inl equal.symm⟩
  · exact ⟨error.symm, Or.inr ⟨resp', resp, decoded', decoded, related.symm⟩⟩

theorem CapabilityResponse.SameButSigs.wrapping (same : resp.SameButSigs pb resp') :
    resp.wrapping = resp'.wrapping := by
  rcases same with rfl | ⟨_, wrapping⟩
  · rfl
  · exact wrapping

/-- Of responses that hold one report, it is left to compare what the report is wrapped in. -/
theorem CapabilityResponse.sameButSigs_of_wrapping
    (close : resp = resp' ∨ resp.SameBody pb resp') (wrapping : resp.wrapping = resp'.wrapping) :
    resp.SameButSigs pb resp' := by
  rcases close with equal | body
  · exact Or.inl equal
  · exact Or.inr ⟨body, wrapping⟩

/-- What results agree on carries over to the responses they stand for. -/
theorem CapabilityResponseResult.Agrees.decoded (agrees : result.Agrees pb related result')
    (decoded : result.decoded pb = .ok resp) :
    ∃ resp', result'.decoded pb = .ok resp' ∧ (resp = resp' ∨ related resp resp') := by
  obtain ⟨error, equal | ⟨sent, sent', decodes, decodes', holds⟩⟩ := agrees
  · have same : result = result' := by
      cases result
      cases result'
      cases error
      cases equal
      rfl
    exact ⟨resp, same ▸ decoded, Or.inl rfl⟩
  · unfold CapabilityResponseResult.decoded at decoded ⊢
    rw [← error]
    split at decoded
    · rename_i failed
      rw [if_pos failed]
      exact ⟨resp, decoded, Or.inl rfl⟩
    · rename_i succeeded
      rw [decodes] at decoded
      rw [if_neg succeeded, decodes']
      cases decoded
      exact ⟨sent', rfl, Or.inr holds⟩

end

/-! ## What two results of one group have in common -/

/-- The result whose hash a response is grouped by. -/
def CapabilityResponseResult.grouped (pb : Protobuf) (hash : ResultHash)
    (result : CapabilityResponseResult) : CapabilityResponseResult :=
  match canonicalCapabilityPayload pb result.payload with
  | .ok (some canonical) =>
      match hash { result with payload := canonical } with
      | .ok _ => { result with payload := canonical }
      | .error _ => result
  | _ => result

/-- The result holds a report, and the other one the body of the report and no more. -/
def CapabilityResponseResult.Rewrites (pb : Protobuf) (hash : ResultHash)
    (result result' : CapabilityResponseResult) : Prop :=
  result'.error = result.error ∧ (∃ h, hash result' = .ok h) ∧
    ∃ resp report, decodePayload pb result.payload = .ok resp ∧
      resp.report pb = .ok (some report) ∧ wrapReport pb report.body = .ok result'.payload

section

variable {pb : Protobuf} {hash : ResultHash} {payload canonical : Bytes}
  {report report' : ReportResponse} {resp : CapabilityResponse}
  {result result' rewritten : CapabilityResponseResult}

theorem decode_wrapReport (wrapped : wrapReport pb report = .ok canonical) :
    ∃ resp, decodePayload pb canonical = .ok resp ∧ resp.report pb = .ok (some report) := by
  unfold wrapReport at wrapped
  split at wrapped
  · cases wrapped
  · rename_i value marshalled
    split at wrapped
    · cases wrapped
    · rename_i out wrappedOut
      cases wrapped
      refine ⟨⟨.payload ⟨pb.reportURL, value, []⟩, []⟩, ?_, ?_⟩
      · unfold decodePayload
        rw [Base64.decodeFrom_encode]
        dsimp only
        rw [pb.unmarshalResponse_marshal _ _ wrappedOut]
      · unfold CapabilityResponse.report
        dsimp only
        rw [if_pos pb.messageIs_reportURL, pb.unmarshalReport_marshal _ _ marshalled]
        rfl

theorem wrapReport_inj (wrapped : wrapReport pb report = .ok canonical)
    (wrapped' : wrapReport pb report' = .ok canonical) : report = report' := by
  obtain ⟨resp, decoded, found⟩ := decode_wrapReport wrapped
  obtain ⟨resp', decoded', found'⟩ := decode_wrapReport wrapped'
  cases decoded.symm.trans decoded'
  exact Option.some.inj (Except.ok.inj (found.symm.trans found'))

/-- Exactly the payloads that hold a report are rewritten. -/
theorem canonicalCapabilityPayload_eq_some_iff :
    canonicalCapabilityPayload pb payload = .ok (some canonical) ↔
      ∃ resp report, decodePayload pb payload = .ok resp ∧ resp.report pb = .ok (some report) ∧
        wrapReport pb report.body = .ok canonical := by
  unfold canonicalCapabilityPayload
  constructor
  · intro rewrites
    split at rewrites
    · cases rewrites
    · cases rewrites
    · rename_i resp decoded
      split at rewrites
      · cases rewrites
      · cases rewrites
      · rename_i report found
        cases wrapped : wrapReport pb report.body with
        | error err =>
            rw [wrapped] at rewrites
            cases rewrites
        | ok out =>
            rw [wrapped] at rewrites
            cases rewrites
            exact ⟨resp, report, decoded, found, wrapped⟩
  · rintro ⟨resp, report, decoded, found, wrapped⟩
    rw [decoded]
    dsimp only
    rw [found]
    dsimp only
    rw [wrapped]
    rfl

theorem CapabilityResponseResult.Rewrites.grouped (rewrites : result.Rewrites pb hash rewritten) :
    result.grouped pb hash = rewritten := by
  obtain ⟨error, ⟨h, hashed⟩, holds⟩ := rewrites
  have same : { result with payload := rewritten.payload } = rewritten := by
    rw [← error]
  unfold CapabilityResponseResult.grouped
  rw [canonicalCapabilityPayload_eq_some_iff.mpr holds]
  dsimp only
  rw [same, hashed]

/-- A result is grouped by its rewritten form if there is one, and by itself if not. -/
theorem CapabilityResponseResult.grouped_cases (pb : Protobuf) (hash : ResultHash)
    (result : CapabilityResponseResult) :
    result.Rewrites pb hash (result.grouped pb hash) ∨ result.grouped pb hash = result := by
  unfold CapabilityResponseResult.grouped
  split
  · rename_i canonical rewrites
    split
    · rename_i h hashed
      exact Or.inl ⟨rfl, ⟨h, hashed⟩, canonicalCapabilityPayload_eq_some_iff.mp rewrites⟩
    · exact Or.inr rfl
  · exact Or.inr rfl

theorem CapabilityResponseResult.Rewrites.idem (rewrites : result.Rewrites pb hash rewritten) :
    rewritten.Rewrites pb hash rewritten := by
  obtain ⟨_, hashed, _, report, _, _, wrapped⟩ := rewrites
  obtain ⟨resp, decoded, found⟩ := decode_wrapReport wrapped
  exact ⟨rfl, hashed, resp, report.body, decoded, found, wrapped⟩

/-- Results that agree in all but the signatures are rewritten alike. -/
theorem CapabilityResponseResult.Rewrites.of_same (rewrites : result.Rewrites pb hash rewritten)
    (same : result.SameButSigs pb result') : result'.Rewrites pb hash rewritten := by
  obtain ⟨error, hashed, resp, report, decoded, found, wrapped⟩ := rewrites
  obtain ⟨error', equal | ⟨sent, sent', decodes, decodes', agree⟩⟩ := same
  · rw [equal] at decoded
    exact ⟨error.trans error', hashed, resp, report, decoded, found, wrapped⟩
  · cases decodes.symm.trans decoded
    refine ⟨error.trans error', hashed, ?_⟩
    rcases agree with rfl | ⟨⟨report₁, report', found₁, found', body⟩, _⟩
    · exact ⟨_, report, decodes', found, wrapped⟩
    · cases found₁.symm.trans found
      exact ⟨sent', report', decodes', found', body ▸ wrapped⟩

theorem CapabilityResponseResult.Rewrites.of_grouped_eq
    (rewrites : result.Rewrites pb hash (result.grouped pb hash))
    (same : result.grouped pb hash = result'.grouped pb hash) :
    result'.Rewrites pb hash (result.grouped pb hash) := by
  rcases result'.grouped_cases pb hash with rewrites' | itself
  · rw [same]
    exact rewrites'
  · have final : result.grouped pb hash = result' := same.trans itself
    rw [final] at rewrites ⊢
    exact rewrites.idem

theorem CapabilityResponseResult.Rewrites.agrees (rewrites : result.Rewrites pb hash rewritten)
    (rewrites' : result'.Rewrites pb hash rewritten) :
    result.Agrees pb (CapabilityResponse.SameBody pb) result' := by
  obtain ⟨error, _, resp, report, decoded, found, wrapped⟩ := rewrites
  obtain ⟨error', _, resp', report', decoded', found', wrapped'⟩ := rewrites'
  have body : report.body = report'.body := wrapReport_inj wrapped wrapped'
  exact ⟨error.symm.trans error', Or.inr ⟨resp, resp', decoded, decoded', report, report', found,
    found', body⟩⟩

/-- **What a group hides.** Two results of one group have the same error, and they are equal or
hold one report: what the report is wrapped in may differ as well as its signatures. -/
theorem grouped_eq (same : result.grouped pb hash = result'.grouped pb hash) :
    result.Agrees pb (CapabilityResponse.SameBody pb) result' := by
  rcases result.grouped_cases pb hash with rewrites | itself
  · exact rewrites.agrees (rewrites.of_grouped_eq same)
  rcases result'.grouped_cases pb hash with rewrites' | itself'
  · exact (rewrites'.of_grouped_eq same.symm).agrees rewrites'
  · have equal : result = result' := itself.symm.trans (same.trans itself')
    rw [equal]
    exact ⟨rfl, Or.inl rfl⟩

theorem hash_grouped {sigHash : Bytes32} (hashed : hash result = .ok sigHash) :
    hash (result.grouped pb hash) = .ok (groupOf pb hash result sigHash).1 := by
  unfold CapabilityResponseResult.grouped groupOf
  cases canonicalCapabilityPayload pb result.payload with
  | error err => exact hashed
  | ok rewritten =>
      cases rewritten with
      | none => exact hashed
      | some canonical =>
          dsimp only
          cases again : hash { result with payload := canonical } with
          | error err => exact hashed
          | ok h => exact again

end

end ConfidentialCompute
