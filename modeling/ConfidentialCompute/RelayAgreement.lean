import ConfidentialCompute.RelayReports

/-!
# Agreement of the returned response with the non-faulty nodes

A bundle has at most `F` faulty signers, and the others sign results that agree in all but a
report's signatures. The group that reaches quorum then holds the result of a non-faulty node, but
the response returned is the first of the group, and that one may be a faulty node's: it has the
report of the others, under a type URL and with unknown fields of its own choice.
-/

namespace ConfidentialCompute

open Go

/-! ## Responses and entries -/

/-- The key validly signed the response. -/
def CapabilityCall.SignedBy (call : CapabilityCall) (r : SignedCapabilityResponseResult)
    (key : Slice UInt8) : Prop :=
  ∃ sigHash, call.hash r.result = .ok sigHash ∧
    ValidSignature call.relay.toCrypto (call.relay.relayResponseSignaturePayload sigHash)
      r.signature.signature key

/-- The response is one of the group, with a signature that verifies. -/
def CapabilityCall.counts (call : CapabilityCall) (g : Bytes32)
    (r : SignedCapabilityResponseResult) : Bool :=
  match call.hash r.result with
  | .error _ => false
  | .ok sigHash =>
      (capabilityEntry call.pb call.relay.toCrypto call.hash 0 r sigHash).counts call.relay
        call.cfg.signers g

/-- What is assumed of a bundle: all but `F` of the signers sign results that agree with `agreed`
in all but a report's signatures, and the hashes of the bundle's groups do not collide. -/
structure HonestNodes (call : CapabilityCall) (responses : List SignedCapabilityResponseResult)
    (faulty : Finset (Slice UInt8)) (agreed : CapabilityResponseResult) : Prop where
  few : faulty.card ≤ call.cfg.f.toNat
  agree : ∀ r ∈ responses, ∀ key ∈ call.cfg.signers, key ∉ faulty → call.SignedBy r key →
    r.result.SameButSigs call.pb agreed
  apart : ∀ r ∈ responses, ∀ r' ∈ responses, ∀ g,
    call.hash (r.result.grouped call.pb call.hash) = .ok g →
    call.hash (r'.result.grouped call.pb call.hash) = .ok g →
    r.result.grouped call.pb call.hash = r'.result.grouped call.pb call.hash

section

variable {call : CapabilityCall} {responses : List SignedCapabilityResponseResult}
  {r r' : SignedCapabilityResponseResult} {faulty : Finset (Slice UInt8)}
  {agreed : CapabilityResponseResult} {g : Bytes32} {e : RelayEntry}

theorem mem_capabilityEntries {i : Nat}
    (among : e ∈ (capabilityEntries call.pb call.relay.toCrypto call.hash i responses).1) :
    ∃ r ∈ responses, ∃ sigHash j, call.hash r.result = .ok sigHash ∧
      e = capabilityEntry call.pb call.relay.toCrypto call.hash j r sigHash := by
  induction responses generalizing i with
  | nil => cases among
  | cons r rest ih =>
      have later : e ∈ (capabilityEntries call.pb call.relay.toCrypto call.hash (i + 1) rest).1 →
          ∃ r' ∈ r :: rest, ∃ sigHash j, call.hash r'.result = .ok sigHash ∧
            e = capabilityEntry call.pb call.relay.toCrypto call.hash j r' sigHash := by
        intro among'
        obtain ⟨r', member, found⟩ := ih among'
        exact ⟨r', List.mem_cons_of_mem _ member, found⟩
      unfold capabilityEntries at among
      dsimp only at among
      split at among
      · exact later among
      · rename_i sigHash hashed
        rcases List.mem_cons.mp among with first | rest
        · exact ⟨r, List.mem_cons_self, sigHash, i, hashed, first⟩
        · exact later rest

/-- The first entry that counts is that of the first response that does. -/
theorem find?_capabilityEntries {i : Nat}
    (found : (capabilityEntries call.pb call.relay.toCrypto call.hash i responses).1.find?
      (·.counts call.relay call.cfg.signers g) = some e) :
    ∃ r j, responses.find? (call.counts g) = some r ∧ responses[j]? = some r ∧
      e.idx = i + j := by
  induction responses generalizing i with
  | nil => cases found
  | cons r rest ih =>
      have later : call.counts g r ≠ true →
          (capabilityEntries call.pb call.relay.toCrypto call.hash (i + 1) rest).1.find?
            (·.counts call.relay call.cfg.signers g) = some e →
          ∃ r' j, (r :: rest).find? (call.counts g) = some r' ∧ (r :: rest)[j]? = some r' ∧
            e.idx = i + j := by
        intro skips found'
        obtain ⟨r', j, first, position, index⟩ := ih found'
        refine ⟨r', j + 1, ?_, position, by omega⟩
        rw [List.find?_cons_of_neg skips]
        exact first
      unfold capabilityEntries at found
      dsimp only at found
      split at found
      · rename_i err unhashable
        refine later ?_ found
        unfold CapabilityCall.counts
        rw [unhashable]
        exact Bool.false_ne_true
      · rename_i sigHash hashed
        have same : call.counts g r =
            (capabilityEntry call.pb call.relay.toCrypto call.hash i r sigHash).counts call.relay
              call.cfg.signers g := by
          unfold CapabilityCall.counts
          rw [hashed]
          rfl
        by_cases counted : call.counts g r = true
        · rw [List.find?_cons_of_pos (same ▸ counted)] at found
          cases found
          exact ⟨r, 0, List.find?_cons_of_pos counted, rfl, rfl⟩
        · rw [List.find?_cons_of_neg (same ▸ counted)] at found
          exact later counted found

theorem CapabilityCall.hash_of_counts (counted : call.counts g r = true) :
    call.hash (r.result.grouped call.pb call.hash) = .ok g := by
  unfold CapabilityCall.counts at counted
  split at counted
  · cases counted
  · rename_i sigHash hashed
    obtain ⟨rfl, _⟩ := RelayEntry.counts_iff.mp counted
    exact hash_grouped hashed

/-- A backed group holds a result that a non-faulty node signed. -/
theorem HonestNodes.exists_honest (honest : HonestNodes call responses faulty agreed)
    (backed : RelayBacked call.relay (call.entries responses) call.cfg g) :
    ∃ r ∈ responses, r.result.SameButSigs call.pb agreed ∧
      call.hash (r.result.grouped call.pb call.hash) = .ok g := by
  obtain ⟨backers, many, sound⟩ := backed
  obtain ⟨key, backs, notFaulty⟩ := Quorum.exists_honest honest.few many
  obtain ⟨member, e, among, rfl, signed⟩ := sound key backs
  obtain ⟨r, response, sigHash, j, hashed, rfl⟩ := mem_capabilityEntries among
  exact ⟨r, response, honest.agree r response key member notFaulty ⟨sigHash, hashed, signed⟩,
    hash_grouped hashed⟩

/-- The response selected is the first one that counts for a backed group. -/
theorem CapabilityCall.select_first {idx : Nat} (selected : call.select responses = .ok idx) :
    ∃ g r, RelayBacked call.relay (call.entries responses) call.cfg g ∧
      responses.find? (call.counts g) = some r ∧ responses[idx]? = some r := by
  obtain ⟨g, e, backed, first, rfl⟩ := selectQuorumResult_first selected
  obtain ⟨r, j, found, position, index⟩ := find?_capabilityEntries first
  rw [Nat.zero_add] at index
  rw [index]
  exact ⟨g, r, backed, found, position⟩

/-- A response of a backed group has the report of the non-faulty nodes, if not its wrapping. -/
theorem HonestNodes.close (honest : HonestNodes call responses faulty agreed)
    (backed : RelayBacked call.relay (call.entries responses) call.cfg g)
    (first : responses.find? (call.counts g) = some r) {sent : CapabilityResponse}
    (decoded : r.result.decoded call.pb = .ok sent) :
    ∃ expected, agreed.decoded call.pb = .ok expected ∧
      (sent = expected ∨ sent.SameBody call.pb expected) := by
  obtain ⟨r', among', same, hashed'⟩ := honest.exists_honest backed
  have hashed := CapabilityCall.hash_of_counts (List.find?_some first)
  have group := honest.apart r (List.mem_of_find?_eq_some first) r' among' g hashed hashed'
  obtain ⟨sent', decoded', close⟩ := (grouped_eq group).decoded decoded
  obtain ⟨expected, agrees, close'⟩ := same.decoded decoded'
  refine ⟨expected, agrees, ?_⟩
  rcases close' with rfl | rfl | ⟨body, _⟩
  · exact close
  · exact close
  · rcases close with rfl | body'
    · exact Or.inr body
    · exact Or.inr (body'.trans body)

/-- Should the non-faulty nodes back two groups, then their results are not rewritten and every
response of such a group is as they sent it. -/
theorem HonestNodes.same_of_other_group (honest : HonestNodes call responses faulty agreed)
    {g' : Bytes32} (other : g ≠ g')
    (backed : RelayBacked call.relay (call.entries responses) call.cfg g)
    (backed' : RelayBacked call.relay (call.entries responses) call.cfg g')
    (first : responses.find? (call.counts g) = some r) :
    r.result.SameButSigs call.pb agreed := by
  obtain ⟨r₁, among₁, same₁, hashed₁⟩ := honest.exists_honest backed
  obtain ⟨r₂, _, same₂, hashed₂⟩ := honest.exists_honest backed'
  have hashed := CapabilityCall.hash_of_counts (List.find?_some first)
  have group := honest.apart r (List.mem_of_find?_eq_some first) r₁ among₁ g hashed hashed₁
  have kept : ¬ r₁.result.Rewrites call.pb call.hash (r₁.result.grouped call.pb call.hash) := by
    intro rewrites
    have grouped₂ := ((rewrites.of_same same₁).of_same same₂.symm).grouped
    rw [grouped₂, hashed₁] at hashed₂
    exact other (Except.ok.inj hashed₂)
  have itself₁ := (r₁.result.grouped_cases call.pb call.hash).resolve_left kept
  have itself : r.result.grouped call.pb call.hash = r.result := by
    refine (r.result.grouped_cases call.pb call.hash).resolve_left fun rewrites => kept ?_
    rw [← group]
    exact rewrites.of_grouped_eq group
  have equal : r.result = r₁.result := itself.symm.trans (group.trans itself₁)
  rw [equal]
  exact same₁

theorem CapabilityCall.callCapability_ok {resp : CapabilityResponse}
    (returned : call.callCapability (.bundle responses) = .ok resp) :
    ∃ idx r, call.select responses = .ok idx ∧ responses[idx]? = some r ∧
      r.result.decoded call.pb = .ok resp := by
  unfold CapabilityCall.callCapability at returned
  dsimp only at returned
  split at returned
  · cases returned
  · cases returned
  · rename_i idx selected
    split at returned
    · cases returned
    · rename_i r position
      split at returned
      · cases returned
      · rename_i sent decoded
        cases returned
        exact ⟨idx, r, selected, position, decoded⟩

theorem CapabilityCall.callCapability_of_select {idx : Nat} {resp : CapabilityResponse}
    (selected : call.select responses = .ok idx) (position : responses[idx]? = some r)
    (decoded : r.result.decoded call.pb = .ok resp) :
    call.callCapability (.bundle responses) = .ok resp := by
  unfold CapabilityCall.callCapability
  dsimp only
  rw [selected]
  dsimp only
  rw [position]
  dsimp only
  rw [decoded]

end

/-! ## The response returned -/

/-- **Grouping hides more than the signatures.** What is returned agrees with the response of the
non-faulty nodes in all but a report's signatures exactly when, if there is a quorum, the first
validly signed response of a backed group has their type URL and unknown fields. -/
theorem responses_agree (call : CapabilityCall)
    (responses : List SignedCapabilityResponseResult) (faulty : Finset (Slice UInt8))
    (agreed : CapabilityResponseResult)
    (honest : HonestNodes call responses faulty agreed) :
    (∀ resp, call.callCapability (.bundle responses) = .ok resp →
      ∃ expected, agreed.decoded call.pb = .ok expected ∧ resp.SameButSigs call.pb expected) ↔
    ((∃ idx, call.select responses = .ok idx) → ∀ g r sent expected,
      RelayBacked call.relay (call.entries responses) call.cfg g →
      responses.find? (call.counts g) = some r →
      r.result.decoded call.pb = .ok sent → agreed.decoded call.pb = .ok expected →
      sent.wrapping = expected.wrapping) := by
  constructor
  · rintro agrees ⟨idx, selected⟩ g r sent expected backed first decoded standard
    obtain ⟨g', r', backed', first', position⟩ := call.select_first selected
    by_cases group : g = g'
    · subst group
      cases first.symm.trans first'
      obtain ⟨expected', standard', same⟩ :=
        agrees sent (call.callCapability_of_select selected position decoded)
      cases standard.symm.trans standard'
      exact same.wrapping
    · have same := honest.same_of_other_group group backed backed' first
      obtain ⟨expected', standard', close⟩ := same.decoded decoded
      cases standard.symm.trans standard'
      rcases close with rfl | same'
      · rfl
      · exact same'.wrapping
  · intro condition resp returned
    obtain ⟨idx, r, selected, position, decoded⟩ := call.callCapability_ok returned
    obtain ⟨g, r', backed, first, position'⟩ := call.select_first selected
    cases position.symm.trans position'
    obtain ⟨expected, standard, close⟩ := honest.close backed first decoded
    refine ⟨expected, standard, CapabilityResponse.sameButSigs_of_wrapping close ?_⟩
    exact condition ⟨idx, selected⟩ g r resp expected backed first decoded standard

namespace Sample

/-- A message is encoded as its place in a table. -/
def marshalIn {α : Type} [DecidableEq α] (table : List α) (m : α) : Except String Bytes :=
  if m ∈ table then .ok [UInt8.ofNat (table.idxOf m)] else .error "unknown message"

def unmarshalIn {α : Type} (table : List α) (raw : Bytes) : Except String α :=
  match raw with
  | [i] => (table[i.toNat]?).elim (.error "unknown message") .ok
  | _ => .error "cannot parse invalid wire-format data"

theorem unmarshalIn_marshalIn {α : Type} [DecidableEq α] {table : List α}
    (small : table.length ≤ 256) (m : α) (raw : Bytes) (marshalled : marshalIn table m = .ok raw) :
    unmarshalIn table raw = .ok m := by
  unfold marshalIn at marshalled
  split at marshalled
  · rename_i member
    have bound : table.idxOf m < 256 := (List.idxOf_lt_length_of_mem member).trans_le small
    cases marshalled
    unfold unmarshalIn
    dsimp only
    rw [UInt8.toNat_ofNat_of_lt' bound, List.getElem?_idxOf member]
    rfl
  · cases marshalled

/-- A report with a signature of each of the nodes named. -/
def report (ids : List UInt32) : ReportResponse :=
  ⟨[1], 42, [2], [3], ids.map fun id => ⟨[], id, []⟩, []⟩

def reports : List ReportResponse := [report [], report [1], report [2]]

def reportName : Bytes := ascii "ReportResponse"

def standardURL : Bytes := ascii "type.googleapis.com/" ++ reportName

def wrapped (url : Bytes) (i : UInt8) : CapabilityResponse := ⟨.payload ⟨url, [i], []⟩, []⟩

/-- A type URL that another host resolves. -/
def evilURL : Bytes := ascii "evil/" ++ reportName

def capabilityResponses : List CapabilityResponse :=
  [wrapped standardURL 0, wrapped standardURL 1, wrapped standardURL 2, wrapped evilURL 1]

def protobuf : Protobuf where
  messageIs url := (ascii "/" ++ reportName).isSuffixOf url
  reportURL := standardURL
  marshalResponse := marshalIn capabilityResponses
  unmarshalResponse := unmarshalIn capabilityResponses
  marshalReport := marshalIn reports
  unmarshalReport := unmarshalIn reports
  unmarshalResponse_marshal := unmarshalIn_marshalIn (by decide)
  unmarshalReport_marshal := unmarshalIn_marshalIn (by decide)
  messageIs_reportURL := by decide

def capabilityResult (i : UInt8) : CapabilityResponseResult := ⟨Base64.encode [i], []⟩

def resultHash : ResultHash := fun result => .ok (digest (result.payload ++ result.error))

def capabilityCall (order : MapOrder Bytes32 (Finset Bytes32)) : CapabilityCall :=
  ⟨protobuf, relay, resultHash, true, order, config 1⟩

def capabilityResponse (n i : UInt8) : SignedCapabilityResponseResult :=
  ⟨capabilityResult i, signer n, sign n (digest ((capabilityResult i).payload ++ [])).data⟩

theorem signedBy_capabilityResponse {order : MapOrder Bytes32 (Finset Bytes32)} {n i : UInt8}
    {key' : Slice UInt8}
    (signed : (capabilityCall order).SignedBy (capabilityResponse n i) key') :
    key' = signer n := by
  obtain ⟨_, hashed, _, _, verified⟩ := signed
  cases hashed
  exact Slice.data_injective (signer_of_verify verified)

def reportGroup : Bytes32 := digest ((capabilityResult 0).payload ++ [])

def isReport (i : UInt8) : Bool := i = 1 || i = 2 || i = 3

/-- Response `i` holds a report under the standard type URL. -/
def isStandard (i : UInt8) : Bool := i = 1 || i = 2

theorem grouped_capabilityResult {i : UInt8} (holds : isReport i = true) :
    (capabilityResult i).grouped protobuf resultHash = capabilityResult 0 := by
  simp only [isReport, Bool.or_eq_true, decide_eq_true_eq] at holds
  rcases holds with (rfl | rfl) | rfl
  · decide +kernel
  · decide +kernel
  · decide +kernel

def bundle (pairs : List (UInt8 × UInt8)) : List SignedCapabilityResponseResult :=
  pairs.map fun p => capabilityResponse p.1 p.2

theorem callCapability_head (order : MapOrder Bytes32 (Finset Bytes32)) {n i : UInt8}
    {rest : List (UInt8 × UInt8)} {sent : CapabilityResponse}
    (reports : ((n, i) :: rest).all (fun p => isReport p.2) = true)
    (reached : (countEntries relay (config 1).signers
      (capabilityEntries protobuf crypto resultHash 0 (bundle ((n, i) :: rest))).1 .empty).any
        (fun tally => 2 ≤ tally.count reportGroup) = true)
    (valid : (capabilityEntry protobuf crypto resultHash 0 (capabilityResponse n i)
      (digest ((capabilityResult i).payload ++ []))).counts relay (config 1).signers
        reportGroup = true)
    (decoded : (capabilityResult i).decoded protobuf = .ok sent) :
    (capabilityCall order).callCapability (.bundle (bundle ((n, i) :: rest))) = .ok sent := by
  obtain ⟨tally, loop, enough⟩ := (Option.any_eq_true _ _).mp reached
  obtain ⟨idx, selected⟩ :
      ∃ idx, (capabilityCall order).select (bundle ((n, i) :: rest)) = .ok idx :=
    selectQuorumResult_of_reached rfl (show (config 1).signers.length ≠ 0 by decide) loop
      (of_decide_eq_true enough)
  obtain ⟨g, r, _, first, position⟩ := CapabilityCall.select_first selected
  obtain ⟨p, among, rfl⟩ := List.mem_map.mp (List.mem_of_find?_eq_some first)
  have hashed : resultHash ((capabilityResult p.2).grouped protobuf resultHash) = .ok g :=
    CapabilityCall.hash_of_counts (List.find?_some first)
  rw [grouped_capabilityResult (List.all_eq_true.mp reports p among)] at hashed
  cases hashed
  have head : (bundle ((n, i) :: rest)).find? ((capabilityCall order).counts reportGroup) =
      some (capabilityResponse n i) := List.find?_cons_of_pos valid
  rw [Option.some.inj (first.symm.trans head)] at position
  exact CapabilityCall.callCapability_of_select selected position decoded

theorem decodePayload_capabilityResult {i : UInt8} (standard : isStandard i = true) :
    decodePayload protobuf (capabilityResult i).payload = .ok (wrapped standardURL i) ∧
      (wrapped standardURL i).report protobuf = .ok (some (report [i.toUInt32])) := by
  simp only [isStandard, Bool.or_eq_true, decide_eq_true_eq] at standard
  rcases standard with rfl | rfl
  · decide +kernel
  · decide +kernel

theorem decoded_capabilityResult {i : UInt8} (standard : isStandard i = true) :
    (capabilityResult i).decoded protobuf = .ok (wrapped standardURL i) := by
  have noError : (capabilityResult i).error = [] := rfl
  unfold CapabilityResponseResult.decoded
  rw [if_neg (not_not_intro noError), (decodePayload_capabilityResult standard).1]

/-- Reports under the standard type URL agree in all but the signatures. -/
theorem sameButSigs_capabilityResult {i j : UInt8} (first : isStandard i = true)
    (second : isStandard j = true) :
    (capabilityResult i).SameButSigs protobuf (capabilityResult j) := by
  obtain ⟨decodes, holds⟩ := decodePayload_capabilityResult first
  obtain ⟨decodes', holds'⟩ := decodePayload_capabilityResult second
  exact ⟨rfl, Or.inr ⟨_, _, decodes, decodes', Or.inr ⟨⟨_, _, holds, holds', rfl⟩, rfl⟩⟩⟩

/-- The assumption holds of reports if the signers who are not faulty use the standard type URL. -/
theorem honestNodes {order : MapOrder Bytes32 (Finset Bytes32)} {pairs : List (UInt8 × UInt8)}
    {faulty : Finset (Slice UInt8)} {j : UInt8} (few : faulty.card ≤ 1)
    (reports : pairs.all (fun p => isReport p.2) = true)
    (standard : pairs.all (fun p => signer p.1 ∈ faulty || isStandard p.2) = true)
    (agreed : isStandard j = true) :
    HonestNodes (capabilityCall order) (bundle pairs) faulty (capabilityResult j) where
  few := few
  agree := by
    intro r member key' _ notFaulty signed
    obtain ⟨p, among, rfl⟩ := List.mem_map.mp member
    cases signedBy_capabilityResponse signed
    have kept := List.all_eq_true.mp standard p among
    rw [decide_eq_false notFaulty, Bool.false_or] at kept
    exact sameButSigs_capabilityResult kept agreed
  apart := by
    intro r member r' member' g _ _
    obtain ⟨p, among, rfl⟩ := List.mem_map.mp member
    obtain ⟨p', among', rfl⟩ := List.mem_map.mp member'
    exact (grouped_capabilityResult (List.all_eq_true.mp reports p among)).trans
      (grouped_capabilityResult (List.all_eq_true.mp reports p' among')).symm

end Sample

section

open Sample

/-- Signers 1 and 2 sign one report. So does signer 4, under the type URL of another host, and it
is this response that is returned. -/
theorem type_url_of_faulty_node :
    (capabilityResult 1).decoded protobuf = .ok (wrapped standardURL 1) ∧
      ¬ (wrapped evilURL 1).SameButSigs protobuf (wrapped standardURL 1) ∧
      ∀ order, HonestNodes (capabilityCall order) (bundle [(4, 3), (1, 1), (2, 2)]) {signer 4}
          (capabilityResult 1) ∧
        (capabilityCall order).callCapability (.bundle (bundle [(4, 3), (1, 1), (2, 2)])) =
            .ok (wrapped evilURL 1) := by
  have different : (wrapped evilURL 1).wrapping ≠
      (wrapped standardURL 1).wrapping := by decide
  refine ⟨decoded_capabilityResult rfl, fun same => different same.wrapping,
    fun order => ⟨?_, ?_⟩⟩
  · exact honestNodes (by decide) rfl (by decide) rfl
  · exact callCapability_head order rfl (by decide +kernel) (by decide +kernel)
      (by decide +kernel)

/-- Two nodes send one report with different signatures. The first response is returned, and it
agrees with the second in all else. -/
theorem responses_agree_two_nodes :
    wrapped standardURL 1 ≠ wrapped standardURL 2 ∧
      ∀ order, (capabilityCall order).callCapability (.bundle (bundle [(1, 1), (2, 2)])) =
            .ok (wrapped standardURL 1) ∧
        ∀ resp, (capabilityCall order).callCapability
            (.bundle (bundle [(1, 1), (2, 2)])) = .ok resp →
          ∃ expected, (capabilityResult 2).decoded protobuf = .ok expected ∧
            resp.SameButSigs protobuf expected := by
  refine ⟨by decide, fun order => ⟨?_, ?_⟩⟩
  · exact callCapability_head order rfl (by decide +kernel) (by decide +kernel)
      (by decide +kernel)
  · have honest : HonestNodes (capabilityCall order) (bundle [(1, 1), (2, 2)]) ∅
        (capabilityResult 2) :=
      honestNodes (by decide) rfl (by decide) rfl
    refine (responses_agree _ _ _ _ honest).mpr ?_
    intro _ g r sent expected _ first decoded standard
    obtain ⟨p, among, rfl⟩ := List.mem_map.mp (List.mem_of_find?_eq_some first)
    have index : [((1 : UInt8), (1 : UInt8)), (2, 2)].all (fun p => isStandard p.2) = true :=
      rfl
    cases (decoded_capabilityResult (List.all_eq_true.mp index p among)).symm.trans decoded
    have second : isStandard 2 = true := rfl
    cases (decoded_capabilityResult second).symm.trans standard
    rfl

end

end ConfidentialCompute
