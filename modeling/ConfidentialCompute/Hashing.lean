import ConfidentialCompute.Types

/-!
# What the hashes commit to

The streams fed to SHA-256 are sequences of self-delimiting fields, so a stream
determines its fields. Two of the streams attested by an enclave for different purposes
are never equal: those that start with the domain separator differ from an
`ExecuteResponse` stream, which starts with 32 bytes of request ID, in the two bytes
after the first 32.

The stream of a legacy request ends in its version and that of any other request in its
application request ID, with nothing to tell the two apart, so a request whose application
request ID reads like the legacy version has the stream of a legacy request.
-/

namespace ConfidentialCompute

open Go Encoding

/-! ## Fields -/

theorem writeLengthPrefix_inj {α : Type} (a b : Slice α) (x y : Bytes)
    (same : writeLengthPrefix a.length ++ x = writeLengthPrefix b.length ++ y) :
    a.data.length = b.data.length ∧ x = y :=
  beBytes_append_inj a.length_lt b.length_lt same

theorem writeWithLength_delimiting : SelfDelimiting writeWithLength :=
  .lengthPrefixed writeLengthPrefix_inj Slice.data_injective

theorem writeAll_delimiting : SelfDelimiting writeAll :=
  .counted writeLengthPrefix_inj writeWithLength_delimiting Slice.data_injective

theorem bytes32_delimiting : SelfDelimiting Bytes32.data :=
  .of_length Bytes32.data_injective fun a b => a.length_eq.trans b.length_eq.symm

theorem uint32_delimiting : SelfDelimiting fun n : UInt32 => beBytes 4 n.toNat := by
  intro a b x y same
  obtain ⟨number, rest⟩ := beBytes_append_inj a.toNat_lt b.toNat_lt same
  exact ⟨UInt32.toNat_inj.mp number, rest⟩

/-- What an `int64` can hold. -/
def Int64Range (n : Int) : Prop := -2 ^ 63 ≤ n ∧ n < 2 ^ 63

theorem writeInt64_delimiting : DelimitingOn Int64Range writeInt64 := by
  intro a b x y inA inB same
  unfold Int64Range at inA inB
  have boundA : (a % 2 ^ 64).toNat < 256 ^ 8 := by omega
  have boundB : (b % 2 ^ 64).toNat < 256 ^ 8 := by omega
  obtain ⟨number, rest⟩ := beBytes_append_inj boundA boundB same
  refine ⟨?_, rest⟩
  omega

theorem EnclavesList.Enclave.write_delimiting : SelfDelimiting EnclavesList.Enclave.write := by
  intro a b x y same
  simp only [EnclavesList.Enclave.write, List.append_assoc] at same
  obtain ⟨enclaveID, same⟩ := bytes32_delimiting _ _ _ _ same
  obtain ⟨enclaveURL, same⟩ := writeWithLength_delimiting _ _ _ _ same
  obtain ⟨trustedValues, same⟩ := writeAll_delimiting _ _ _ _ same
  obtain ⟨enclaveType, same⟩ := writeWithLength_delimiting _ _ _ _ same
  obtain ⟨enclaveAuthHeader, same⟩ := writeWithLength_delimiting _ _ _ _ same
  obtain ⟨enclaveExtraData, same⟩ := writeWithLength_delimiting _ _ _ _ same
  obtain ⟨region, rest⟩ := writeWithLength_delimiting _ _ _ _ same
  refine ⟨?_, rest⟩
  cases a
  cases b
  simp_all

/-! ## Streams -/

theorem EnclaveConfig.preimage_injective : Function.Injective EnclaveConfig.preimage := by
  intro a b same
  unfold EnclaveConfig.preimage at same
  obtain ⟨signers, same⟩ := writeAll_delimiting _ _ _ _ (List.append_cancel_left same)
  obtain ⟨masterPublicKey, same⟩ := writeWithLength_delimiting _ _ _ _ same
  obtain ⟨t, same⟩ := uint32_delimiting _ _ _ _ same
  have f := uint32_delimiting.injective same
  cases a
  cases b
  simp_all

/-- The fields of a request that its hash covers. -/
structure SameSigned (a b : ComputeRequest) : Prop where
  requestID : a.requestID = b.requestID
  publicData : a.publicData = b.publicData
  ciphertextNames : a.ciphertextNames = b.ciphertextNames
  ciphertexts : a.ciphertexts = b.ciphertexts
  enclaveEphemeralPublicKey : a.enclaveEphemeralPublicKey = b.enclaveEphemeralPublicKey
  masterPublicKey : a.masterPublicKey = b.masterPublicKey
  appID : a.appID = b.appID
  versionField : a.versionField = b.versionField

theorem ComputeRequest.preimage_fields {a b : ComputeRequest} (same : a.preimage = b.preimage) :
    SameSigned a b := by
  unfold ComputeRequest.preimage at same
  obtain ⟨requestID, same⟩ := bytes32_delimiting _ _ _ _ (List.append_cancel_left same)
  obtain ⟨publicData, same⟩ := writeWithLength_delimiting _ _ _ _ same
  obtain ⟨ciphertextNames, same⟩ := writeAll_delimiting _ _ _ _ same
  obtain ⟨ciphertexts, same⟩ := writeAll_delimiting _ _ _ _ same
  obtain ⟨key, same⟩ := writeWithLength_delimiting _ _ _ _ same
  obtain ⟨masterPublicKey, same⟩ := writeWithLength_delimiting _ _ _ _ same
  obtain ⟨appID, same⟩ := writeWithLength_delimiting _ _ _ _ same
  exact ⟨requestID, publicData, ciphertextNames, ciphertexts, key, masterPublicKey, appID,
    writeWithLength_delimiting.injective same⟩

/-- The fields in which the streams of two requests agree, whatever their versions. -/
structure SameBody (a b : ComputeRequest) : Prop where
  requestID : a.requestID = b.requestID
  publicData : a.publicData = b.publicData
  ciphertextNames : a.ciphertextNames = b.ciphertextNames
  ciphertexts : a.ciphertexts = b.ciphertexts
  enclaveEphemeralPublicKey : a.enclaveEphemeralPublicKey = b.enclaveEphemeralPublicKey
  masterPublicKey : a.masterPublicKey = b.masterPublicKey
  appID : a.appID = b.appID

theorem SameSigned.body {a b : ComputeRequest} (same : SameSigned a b) : SameBody a b :=
  ⟨same.requestID, same.publicData, same.ciphertextNames, same.ciphertexts,
    same.enclaveEphemeralPublicKey, same.masterPublicKey, same.appID⟩

theorem ComputeRequest.preimage_eq_iff {a b : ComputeRequest} :
    a.preimage = b.preimage ↔ SameBody a b ∧ a.versionField = b.versionField := by
  constructor
  · intro same
    have signed := ComputeRequest.preimage_fields same
    exact ⟨signed.body, signed.versionField⟩
  · intro ⟨body, version⟩
    unfold ComputeRequest.preimage
    rw [body.requestID, body.publicData, body.ciphertextNames, body.ciphertexts,
      body.enclaveEphemeralPublicKey, body.masterPublicKey, body.appID, version]

theorem ComputeRequest.versionField_legacy {cr : ComputeRequest} (legacy : IsLegacy cr.version) :
    cr.versionField = cr.version := if_pos legacy

theorem ComputeRequest.versionField_other {cr : ComputeRequest}
    (other : ¬ IsLegacy cr.version) : cr.versionField = cr.applicationRequestID := if_neg other

theorem EnclavesList.preimage_injective : Function.Injective EnclavesList.preimage := by
  intro a b same
  unfold EnclavesList.preimage at same
  have list := SelfDelimiting.counted writeLengthPrefix_inj
    EnclavesList.Enclave.write_delimiting (Slice.data_injective (α := EnclavesList.Enclave))
  have enclaves := list.injective (List.append_cancel_left same)
  cases a
  cases b
  exact congrArg EnclavesList.mk enclaves

/-- Equal streams are those of equal keys, times and lifetimes, and of configurations with
one hash. -/
theorem PublicKeyResponse.preimage_fields {crypto : Crypto} {a b : PublicKeyResponse}
    (timesA : ∀ t ∈ a.creationTimes, Int64Range t) (timesB : ∀ t ∈ b.creationTimes, Int64Range t)
    (ttlsA : ∀ t ∈ a.ttls, Int64Range t) (ttlsB : ∀ t ∈ b.ttls, Int64Range t)
    (same : a.preimage crypto = b.preimage crypto) :
    a.publicKeys = b.publicKeys ∧ a.creationTimes = b.creationTimes ∧ a.ttls = b.ttls ∧
      a.config.hash crypto = b.config.hash crypto := by
  unfold PublicKeyResponse.preimage at same
  obtain ⟨publicKeys, same⟩ := writeAll_delimiting _ _ _ _ (List.append_cancel_left same)
  obtain ⟨count, same⟩ := writeLengthPrefix_inj _ _ _ _ same
  obtain ⟨creationTimes, same⟩ :=
    writeInt64_delimiting.flatMap _ _ _ _ timesA timesB count same
  obtain ⟨count, same⟩ := writeLengthPrefix_inj _ _ _ _ same
  obtain ⟨ttls, same⟩ := writeInt64_delimiting.flatMap _ _ _ _ ttlsA ttlsB count same
  exact ⟨publicKeys, Slice.data_injective creationTimes, Slice.data_injective ttls,
    Bytes32.data_injective same⟩

/-- Whatever the versions of the two requests are, the streams of two responses agree on
the output, the configuration's hash and the request's hash. -/
theorem ExecuteResponse.userDataPreimage_fields {crypto : Crypto} {a b : ExecuteResponse}
    {version version' : GoString}
    (same : a.userDataPreimage crypto version = b.userDataPreimage crypto version') :
    a.requestID = b.requestID ∧ a.output = b.output ∧
      a.config.hash crypto = b.config.hash crypto ∧ a.requestHash = b.requestHash := by
  unfold ExecuteResponse.userDataPreimage at same
  obtain ⟨requestID, same⟩ := bytes32_delimiting _ _ _ _ same
  obtain ⟨output, same⟩ := writeWithLength_delimiting _ _ _ _ (List.append_cancel_left same)
  obtain ⟨config, same⟩ := bytes32_delimiting _ _ _ _ same
  obtain ⟨requestHash, _⟩ := bytes32_delimiting _ _ _ _ same
  exact ⟨requestID, output, config, requestHash⟩

/-- The end of a response's stream tells whether the request was a legacy one. -/
theorem ExecuteResponse.userDataPreimage_layout {crypto : Crypto} {a b : ExecuteResponse}
    {version version' : GoString}
    (same : a.userDataPreimage crypto version = b.userDataPreimage crypto version') :
    (IsLegacy version ↔ IsLegacy version') ∧
      (¬ IsLegacy version → a.applicationRequestID = b.applicationRequestID) := by
  unfold ExecuteResponse.userDataPreimage at same
  obtain ⟨_, same⟩ := bytes32_delimiting _ _ _ _ same
  obtain ⟨_, same⟩ := writeWithLength_delimiting _ _ _ _ (List.append_cancel_left same)
  obtain ⟨_, same⟩ := bytes32_delimiting _ _ _ _ same
  obtain ⟨_, same⟩ := bytes32_delimiting _ _ _ _ same
  -- what is left is nothing in the legacy layout, and at least eight bytes in the other
  have long : ∀ id : GoString, writeWithLength id ≠ [] := by
    intro id empty
    have length := congrArg List.length empty
    simp only [writeWithLength, writeLengthPrefix, List.length_append, length_beBytes,
      List.length_nil] at length
    omega
  by_cases legacy : IsLegacy version <;> by_cases legacy' : IsLegacy version'
  · exact ⟨iff_of_true legacy legacy', fun other => absurd legacy other⟩
  · rw [if_pos (by exact legacy), if_neg (by exact legacy')] at same
    exact absurd same.symm (long _)
  · rw [if_neg (by exact legacy), if_pos (by exact legacy')] at same
    exact absurd same (long _)
  · rw [if_neg (by exact legacy), if_neg (by exact legacy')] at same
    exact ⟨iff_of_false legacy legacy', fun _ => writeWithLength_delimiting.injective same⟩

/-! ## Streams of different kinds -/

/-- The two bytes after the first 32. -/
def tagBytes (text : Bytes) : Bytes := (text.drop 32).take 2

theorem tagBytes_append {text : Bytes} (long : 34 ≤ text.length) (rest : Bytes) :
    tagBytes (text ++ rest) = tagBytes text := by
  unfold tagBytes
  rw [List.drop_append_of_le_length (by omega), List.take_append_of_le_length]
  rw [List.length_drop]
  omega

theorem ExecuteResponse.tagBytes_userDataPreimage (crypto : Crypto) (er : ExecuteResponse)
    (version : GoString) : tagBytes (er.userDataPreimage crypto version) = ascii "CO" := by
  unfold tagBytes ExecuteResponse.userDataPreimage
  rw [List.drop_append, er.requestID.length_eq, List.drop_of_length_le er.requestID.length_eq.le]
  rfl

/-- No other stream that starts with the domain separator is that of a response. -/
theorem ExecuteResponse.userDataPreimage_ne (crypto : Crypto) (er : ExecuteResponse)
    (version : GoString) :
    (∀ resp : PublicKeyResponse, er.userDataPreimage crypto version ≠ resp.preimage crypto) ∧
      (∀ config, er.userDataPreimage crypto version ≠ setConfigPreimage crypto config) ∧
      (∀ body, er.userDataPreimage crypto version ≠ gatewayRequestPreimage body) := by
  have tag := er.tagBytes_userDataPreimage crypto version
  refine ⟨fun resp same => ?_, fun config same => ?_, fun body same => ?_⟩
  · rw [same, PublicKeyResponse.preimage, tagBytes_append (by decide)] at tag
    exact absurd tag (by decide)
  · rw [same, setConfigPreimage, tagBytes_append (by decide)] at tag
    exact absurd tag (by decide)
  · rw [same, gatewayRequestPreimage, tagBytes_append (by decide)] at tag
    exact absurd tag (by decide)

/-- The separator is 28 bytes long and is followed by a line break and the first letter of a
tag, so 30 bytes tell the tags apart. -/
theorem setConfigPreimage_ne (crypto : Crypto) (config : EnclaveConfig) :
    (∀ resp : PublicKeyResponse, setConfigPreimage crypto config ≠ resp.preimage crypto) ∧
      ∀ body, setConfigPreimage crypto config ≠ gatewayRequestPreimage body :=
  have length : 30 ≤ (domainSeparator ++ ascii "\nSetConfigResponse\n").length := by decide
  ⟨fun _ => append_ne_append_of_take length (by decide) (by decide) _ _,
    fun _ => append_ne_append_of_take length (by decide) (by decide) _ _⟩

theorem PublicKeyResponse.preimage_ne (crypto : Crypto) (resp : PublicKeyResponse)
    (body : Bytes) : resp.preimage crypto ≠ gatewayRequestPreimage body :=
  have length : 30 ≤ (domainSeparator ++ ascii "\nPublicKeyResponse\n").length := by decide
  append_ne_append_of_take length (by decide) (by decide) _ _

/-! ## What a stream says -/

/-- **A stream determines what was written.** For two requests of one kind, for
configurations, for lists of enclaves and for public keys whose times are `int64`
nanoseconds. Durations are `int64` by their type. -/
theorem preimages_determine (crypto : Crypto) :
    (∀ a b : ComputeRequest, (IsLegacy a.version ↔ IsLegacy b.version) →
      a.preimage = b.preimage → SameBody a b ∧
        (IsLegacy a.version → a.version = b.version) ∧
        (¬ IsLegacy a.version → a.applicationRequestID = b.applicationRequestID)) ∧
    (∀ a b : EnclaveConfig, a.preimage = b.preimage → a = b) ∧
    (∀ a b : EnclavesList, a.preimage = b.preimage → a = b) ∧
    (∀ a b : PublicKeyResponse,
      (∀ t ∈ a.creationTimes, Int64Range t) → (∀ t ∈ b.creationTimes, Int64Range t) →
      (∀ t ∈ a.ttls, Int64Range t) → (∀ t ∈ b.ttls, Int64Range t) →
      a.preimage crypto = b.preimage crypto →
      a.publicKeys = b.publicKeys ∧ a.creationTimes = b.creationTimes ∧ a.ttls = b.ttls ∧
        a.config.hash crypto = b.config.hash crypto) := by
  refine ⟨?_, fun _ _ same => EnclaveConfig.preimage_injective same,
    fun _ _ same => EnclavesList.preimage_injective same,
    fun _ _ timesA timesB ttlsA ttlsB same =>
      PublicKeyResponse.preimage_fields timesA timesB ttlsA ttlsB same⟩
  intro a b kind same
  obtain ⟨body, version⟩ := ComputeRequest.preimage_eq_iff.mp same
  refine ⟨body, ?_, ?_⟩
  · intro legacy
    rwa [ComputeRequest.versionField_legacy legacy,
      ComputeRequest.versionField_legacy (kind.mp legacy)] at version
  · intro other
    rwa [ComputeRequest.versionField_other other,
      ComputeRequest.versionField_other (fun legacy => other (kind.mpr legacy))] at version

namespace Sample

/-- A request that says nothing but its last two fields. -/
def versioned (applicationRequestID version : GoString) : ComputeRequest :=
  ⟨default, applicationRequestID, ∅, ∅, ∅, ∅, ∅, ∅, ∅, version⟩

def legacyVersion : GoString := ⟨serviceConfidentialComputeVersionLegacy, by decide⟩

/-- The same bytes, in two lists of two fields. -/
def splitEarly : Slice (Slice UInt8) :=
  ⟨[⟨[6], by decide⟩, ⟨[7, 8], by decide⟩], by decide⟩

def splitLate : Slice (Slice UInt8) :=
  ⟨[⟨[6, 7], by decide⟩, ⟨[8], by decide⟩], by decide⟩

def twoCiphertexts (fields : Slice (Slice UInt8)) (version : GoString) : ComputeRequest :=
  { versioned ⟨ascii "id", by decide⟩ version with
    ciphertexts := fields, ciphertextNames := splitEarly, publicData := ⟨[4], by decide⟩ }

def configWith (signers : Slice (Slice UInt8)) : EnclaveConfig := ⟨signers, ⟨[5], by decide⟩, 2, 1⟩

def enclavesWith (trustedValues : Slice (Slice UInt8)) : EnclavesList :=
  let enclave : EnclavesList.Enclave := ⟨default, ∅, trustedValues, ∅, ∅, ∅, ∅⟩
  ⟨⟨[enclave, enclave], Nat.lt_of_le_of_lt (Nat.le_refl 2) (by decide)⟩⟩

def keysWith (publicKeys : Slice (Slice UInt8)) : PublicKeyResponse :=
  ⟨publicKeys, ⟨[1, 2], by decide⟩, ⟨[1, 2], by decide⟩, configWith ∅, ∅⟩

end Sample

section

open Sample

/-- The version of a request that is not a legacy one is not written. Where one field of a list
ends is, in every layout. -/
theorem preimages_determine_not_version :
    let version : GoString := ⟨ascii "1", by decide⟩
    twoCiphertexts splitEarly ∅ ≠ twoCiphertexts splitEarly version ∧
      (twoCiphertexts splitEarly ∅).preimage = (twoCiphertexts splitEarly version).preimage ∧
      SameBody (twoCiphertexts splitEarly ∅) (twoCiphertexts splitEarly version) ∧
      (twoCiphertexts splitEarly ∅).preimage ≠ (twoCiphertexts splitLate ∅).preimage ∧
      (configWith splitEarly).preimage ≠ (configWith splitLate).preimage ∧
      (enclavesWith splitEarly).preimage ≠ (enclavesWith splitLate).preimage ∧
      (keysWith splitEarly).preimage ⟨fun _ => default, fun _ _ _ => false⟩ ≠
        (keysWith splitLate).preimage ⟨fun _ => default, fun _ _ _ => false⟩ := by
  obtain ⟨requests, configs, enclaves, keys⟩ :=
    preimages_determine ⟨fun _ => default, fun _ _ _ => false⟩
  have shared : (twoCiphertexts splitEarly ∅).preimage =
      (twoCiphertexts splitEarly ⟨ascii "1", by decide⟩).preimage := by
    decide +kernel
  have apart : splitEarly ≠ splitLate := by decide
  have small : ∀ t ∈ ([1, 2] : List Int), Int64Range t := by
    unfold Int64Range
    decide
  refine ⟨by decide, shared, (requests _ _ (by decide) shared).1, fun same => ?_, fun same => ?_,
    fun same => ?_, fun same => ?_⟩
  · exact apart (requests (twoCiphertexts splitEarly ∅) (twoCiphertexts splitLate ∅) Iff.rfl
      same).1.ciphertexts
  · exact apart (congrArg EnclaveConfig.signers (configs _ _ same))
  · have first := congrArg (fun list => list.enclaves.data.head?.map (·.trustedValues))
      (enclaves _ _ same)
    exact apart (Option.some.inj first)
  · exact apart (keys (keysWith splitEarly) (keysWith splitLate) small small small small same).1

end

/-- **When a legacy request and another one have different streams**: unless they agree in
all other fields and the application request ID of the other one reads like the legacy
version. -/
theorem legacy_streams_differ {r₁ r₂ : ComputeRequest} (legacy : IsLegacy r₁.version)
    (other : ¬ IsLegacy r₂.version) :
    r₁.preimage ≠ r₂.preimage ↔
      ¬ (SameBody r₁ r₂ ∧
        r₂.applicationRequestID.data = serviceConfidentialComputeVersionLegacy) := by
  refine not_congr (ComputeRequest.preimage_eq_iff.trans (and_congr_right fun _ => ?_))
  rw [ComputeRequest.versionField_legacy legacy, ComputeRequest.versionField_other other]
  constructor
  · intro same
    rw [← same]
    exact legacy
  · intro reads
    exact Slice.data_injective (Eq.trans legacy reads.symm)

section

open Sample

/-- A legacy request and another one, of version 1, that share their stream. -/
theorem legacy_stream_shared :
    IsLegacy (versioned ∅ legacyVersion).version ∧
      ¬ IsLegacy (versioned legacyVersion ⟨ascii "1", by decide⟩).version ∧
      (versioned ∅ legacyVersion).preimage =
        (versioned legacyVersion ⟨ascii "1", by decide⟩).preimage := by
  decide

end

/-- Any other application request ID keeps the streams apart. -/
theorem legacy_streams_differ_other_id :
    (Sample.versioned ∅ Sample.legacyVersion).preimage ≠
      (Sample.versioned ⟨ascii "r", by decide⟩ ⟨ascii "1", by decide⟩).preimage :=
  (legacy_streams_differ (by decide) (by decide)).mpr fun ⟨_, reads⟩ =>
    absurd reads (by decide)

/-- **Attestations for different purposes differ**, and a response's stream determines what
it attests, whatever the versions of the requests. -/
theorem attestation_domains (crypto : Crypto) :
    (∀ (er : ExecuteResponse) (version : GoString) (resp : PublicKeyResponse),
      er.userDataPreimage crypto version ≠ resp.preimage crypto) ∧
    (∀ (er : ExecuteResponse) (version : GoString) (sr : SetConfigResponse),
      er.userDataPreimage crypto version ≠ setConfigPreimage crypto sr.config) ∧
    (∀ (er : ExecuteResponse) (version : GoString) (body : Bytes),
      er.userDataPreimage crypto version ≠ gatewayRequestPreimage body) ∧
    (∀ (sr : SetConfigResponse) (resp : PublicKeyResponse),
      setConfigPreimage crypto sr.config ≠ resp.preimage crypto) ∧
    (∀ (sr : SetConfigResponse) (body : Bytes),
      setConfigPreimage crypto sr.config ≠ gatewayRequestPreimage body) ∧
    (∀ (resp : PublicKeyResponse) (body : Bytes),
      resp.preimage crypto ≠ gatewayRequestPreimage body) ∧
    (∀ (a b : ExecuteResponse) (version version' : GoString),
      a.userDataPreimage crypto version = b.userDataPreimage crypto version' →
      a.requestID = b.requestID ∧ a.output = b.output ∧
        a.config.hash crypto = b.config.hash crypto ∧ a.requestHash = b.requestHash ∧
        (IsLegacy version ↔ IsLegacy version') ∧
        (¬ IsLegacy version → a.applicationRequestID = b.applicationRequestID)) := by
  refine ⟨fun er version => (er.userDataPreimage_ne crypto version).1,
    fun er version sr => (er.userDataPreimage_ne crypto version).2.1 sr.config,
    fun er version => (er.userDataPreimage_ne crypto version).2.2,
    fun sr => (setConfigPreimage_ne crypto sr.config).1,
    fun sr => (setConfigPreimage_ne crypto sr.config).2,
    fun resp => resp.preimage_ne crypto, ?_⟩
  intro a b version version' same
  obtain ⟨requestID, output, config, requestHash⟩ :=
    ExecuteResponse.userDataPreimage_fields same
  obtain ⟨layout, applicationRequestID⟩ := ExecuteResponse.userDataPreimage_layout same
  exact ⟨requestID, output, config, requestHash, layout, applicationRequestID⟩

end ConfidentialCompute
