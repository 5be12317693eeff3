import ConfidentialCompute.Client
import ConfidentialCompute.Enclave.Steps
import ConfidentialCompute.Hashing
import ConfidentialCompute.Sample

/-!
# From the client's checks back to the enclave

Enclaves run side by side, and the host between them and the client decides what each of
them receives and what the client gets to see. A response that the client accepts was
nevertheless computed by the app of some enclave, in a `/requests` goroutine whose batch a
quorum of the DON has signed: the attestation covers output, request hash and
configuration, and the enclave attests these only for a batch it has admitted.
-/

namespace ConfidentialCompute

open Go Runs

/-! ## Enclaves side by side -/

/-- The enclaves, by number. -/
abbrev World := GoMap Nat EnclaveServer

structure WorldLabel where
  enclave : Nat
  label : EnclaveLabel

def World.step (p : Platform) (w : World) (l : WorldLabel) : Option World :=
  match w.lookup l.enclave with
  | none => none
  | some s => (s.step p l.label).map fun s' => w.insert l.enclave s'

/-- The enclave has just been started. -/
def Started (s : EnclaveServer) : Prop :=
  ∃ config allowReconfig appConfigurable keychain start,
    s = .newEnclaveServer config allowReconfig appConfigurable keychain start

/-! ## What an enclave attests -/

/-- Every goroutine has an admitted batch, and every attested response is that of a
goroutine, with the output its app has returned. -/
structure Backed (crypto : Crypto) (s : EnclaveServer) : Prop where
  admitted : ∀ i a, s.calls.lookup i = some a → Admitted crypto a.config a.reqs a.hash
  early : ∀ i a, s.calls.lookup i = some a → a.pc.isEarly → a.output = none
  attesting : ∀ i a, s.calls.lookup i = some a → ∀ output, a.pc = .attesting output →
    a.output = some output
  attested : ∀ resp version, Attested.execute resp version ∈ s.attested →
    ∃ i a output, s.calls.lookup i = some a ∧ a.output = some output ∧
      resp = EnclaveServer.responseTo a output

namespace Backed

variable {p : Platform} {crypto : Crypto} {s s' : EnclaveServer} {now : Int} {id : Nat}
  {call : ExecCall} {l : EnclaveLabel}

/-- An old event still has its goroutine when a goroutine is stored over one that has
attested nothing else. -/
theorem events_insert (inv : Backed crypto s) {call' : ExecCall}
    (continues : ∀ old, s.calls.lookup id = some old → ∀ output, old.output = some output →
      call'.output = some output ∧
        EnclaveServer.responseTo old output = EnclaveServer.responseTo call' output) :
    ∀ resp version, Attested.execute resp version ∈ s.attested →
      ∃ i a output, (s.calls.insert id call').lookup i = some a ∧ a.output = some output ∧
        resp = EnclaveServer.responseTo a output := by
  intro resp version member
  obtain ⟨i, a, output, found, has, rfl⟩ := inv.attested resp version member
  by_cases same : i = id
  · subst same
    obtain ⟨has', response⟩ := continues a found output has
    exact ⟨i, call', output, Finmap.lookup_insert _, has', response⟩
  · refine ⟨i, a, output, ?_, has, rfl⟩
    rw [lookup_insert_eq, if_neg same]
    exact found

/-- A goroutine moves on and nothing is attested. -/
theorem move (inv : Backed crypto s) (found : s.calls.lookup id = some call) {pc : ExecPC}
    (calls : s'.calls = s.calls.insert id { call with pc := pc })
    (attested : s'.attested = s.attested) (early : pc.isEarly → call.pc.isEarly)
    (attesting : ∀ output, pc ≠ .attesting output) : Backed crypto s' where
  admitted := by
    rw [calls]
    exact forall_lookup_insert inv.admitted (inv.admitted id call found)
  early := by
    rw [calls]
    exact forall_lookup_insert inv.early fun isEarly => inv.early id call found (early isEarly)
  attesting := by
    rw [calls]
    exact forall_lookup_insert inv.attesting fun output at_ => (attesting output at_).elim
  attested := by
    rw [calls, attested]
    apply inv.events_insert
    intro old foundOld output has
    cases found.symm.trans foundOld
    exact ⟨has, rfl⟩

theorem localMove (inv : Backed crypto s) (found : s.calls.lookup id = some call) {pc : ExecPC}
    (move : LocalMove s now call pc) : Backed crypto (s.setCall id { call with pc := pc }) := by
  cases move with
  | busy _ _ _ | replay _ _ _ | failed _ _ => exact inv.move found rfl rfl nofun nofun
  | notBusy at_ _ | notReplay at_ _ | keyFound at_ _ | combined at_ =>
      have early : call.pc.isEarly := by rw [at_]; rfl
      exact inv.move found rfl rfl (fun _ => early) nofun

theorem callStep (inv : Backed crypto s) (found : s.calls.lookup id = some call)
    (effect : CallEffect s now id call s') : Backed crypto s' := by
  cases effect with
  | localMove move => exact inv.localMove found move
  | markInProgress at_ =>
      have early : call.pc.isEarly := by rw [at_]; rfl
      exact inv.move found rfl rfl (fun _ => early) nofun
  | markExecuted _ | unmark _ => exact inv.move found rfl rfl nofun nofun
  | @appReturned secrets output at_ =>
      -- the app returns once, so no response has been attested for this goroutine
      have none_ : call.output = none := inv.early id call found (by rw [at_]; rfl)
      refine ⟨forall_lookup_insert inv.admitted (inv.admitted id call found),
        forall_lookup_insert inv.early nofun, forall_lookup_insert inv.attesting ?_, ?_⟩
      · rintro _ ⟨⟩
        rfl
      · apply inv.events_insert
        intro old foundOld output' has
        cases found.symm.trans foundOld
        rw [none_] at has
        cases has
  | @attested output pc at_ next =>
      have has : call.output = some output := inv.attesting id call found output at_
      have moved : Backed crypto (s.setCall id { call with pc := pc }) := by
        rcases next with ⟨resp, rfl⟩ | ⟨reply, _, rfl⟩ <;>
          exact inv.move found rfl rfl nofun nofun
      refine ⟨moved.admitted, moved.early, moved.attesting, fun resp version member => ?_⟩
      rcases List.mem_append.mp member with old | new
      · exact moved.attested resp version old
      · cases List.mem_singleton.mp new
        exact ⟨id, { call with pc := pc }, output, Finmap.lookup_insert _, has, rfl⟩

/-- **One step keeps every attested response backed.** -/
theorem step (inv : Backed p.toCrypto s) (taken : s.step p l = some s') :
    Backed p.toCrypto s' := by
  obtain ⟨_, acted⟩ := EnclaveServer.step_eq_some taken
  have now : Backed p.toCrypto { s with clock := l.now } := ⟨inv.1, inv.2, inv.3, inv.4⟩
  have effect := EnclaveServer.act_exec acted
  generalize l.action = a at effect
  cases effect with
  | same same =>
      obtain ⟨admitted, early, attesting, attested⟩ := now
      refine ⟨by rwa [same.calls], by rwa [same.calls], by rwa [same.calls], ?_⟩
      rw [same.calls]
      intro resp version member
      exact attested resp version (same.attested resp version member)
  | admitted unused admitted =>
      refine ⟨forall_lookup_insert now.admitted admitted,
        forall_lookup_insert now.early fun _ => rfl,
        forall_lookup_insert now.attesting nofun, ?_⟩
      apply now.events_insert
      intro old found
      rw [unused] at found
      cases found
  | call found effect => exact now.callStep found effect
  | keyPair | collectInProgress | collectExecuted | collectKeypairs =>
      exact ⟨now.1, now.2, now.3, now.4⟩

theorem started (start : Started s) : Backed crypto s := by
  obtain ⟨config, allowReconfig, appConfigurable, keychain, start, rfl⟩ := start
  refine ⟨?_, ?_, ?_, nofun⟩
  all_goals
    intro i a found
    cases found

/-- In every reachable world, all enclaves' attested responses are backed. -/
theorem of_run {w₀ w : World} {ls : List WorldLabel}
    (start : ∀ id s, w₀.lookup id = some s → Started s)
    (run : Run (World.step p) anyStep w₀ ls w) :
    ∀ id s, w.lookup id = some s → Backed p.toCrypto s := by
  induction run with
  | nil => exact fun id s found => .started (start id s found)
  | @snoc ls w w' l _ _ taken ih =>
      unfold World.step at taken
      split at taken
      · cases taken
      · rename_i s found
        obtain ⟨s', stepped, rfl⟩ := Option.map_eq_some_iff.mp taken
        exact forall_lookup_insert ih ((ih _ s found).step stepped)

end Backed

/-! ## End to end -/

/-- An attestation that the client's validator accepts under a trusted measurement, among
those the host presents, was made by some enclave over the same user data. -/
def Unforgeable (p : Platform) (svc : AttestationServices) (w : World) (nodes : List Enclave)
    (replies : Nat → NodeReply) : Prop :=
  ∀ i out, replies i = .response out → ∀ node ∈ nodes, ∀ measurements ∈ node.trustedValues,
    ∀ userData, forEnclaveType svc node.enclaveType out.attestation userData measurements = .ok () →
      ∃ id s, w.lookup id = some s ∧ ∃ a ∈ s.attested, a.userData p = userData

/-- What the workflows app attests under its own domain tags is not a response. -/
def RelayApart (p : Platform) (w : World) : Prop :=
  ∀ id s, w.lookup id = some s → ∀ domainTag data, Attested.relay domainTag data ∈ s.attested →
    ∀ (resp : ExecuteResponse) version,
      p.domainHashPreimage domainTag data ≠ resp.userDataPreimage p.toCrypto version

/-- The texts whose hashes are compared: the contents of the response and everything
attested, its configuration and those of the goroutines. -/
def comparedTexts (p : Platform) (w : World) (out : ExecuteResponse) (version : GoString) :
    Set Bytes :=
  { text | text = out.userDataPreimage p.toCrypto version ∨ text = out.config.preimage ∨
    ∃ id s, w.lookup id = some s ∧ ((∃ a ∈ s.attested, text = a.preimage p) ∨
      ∃ i call, s.calls.lookup i = some call ∧ text = call.config.preimage) }

/-- The goroutine `call` is one for the request with hash `hash`: its app has returned
`output`, all requests of its batch have that hash, at least `f + 1` distinct members have
signed it there, and its configuration has the members as signers and at least `f` as its
fault bound. -/
structure Executed (crypto : Crypto) (members : List (Slice UInt8)) (f : UInt32) (hash : Bytes32)
    (output : Slice UInt8) (call : ExecCall) : Prop where
  output_eq : call.output = some output
  hashes : ∀ req ∈ call.reqs, req.hash crypto = hash
  quorum : ∃ signers : Finset (Slice UInt8), f.toNat + 1 ≤ signers.card ∧
    ∀ member ∈ signers, member ∈ members ∧ ∃ req ∈ call.reqs,
      crypto.ed25519Verify member.data (requestPayload crypto hash) req.signature.data = true
  signers : call.config.signers.data.Perm members
  bound : f ≤ call.config.f

section

variable {p : Platform} {svc : AttestationServices} {w : World} {nodes : List Enclave}
  {replies : Nat → NodeReply}

/-- The contents of an accepted response were attested as a response by some enclave. -/
theorem attested_response {i : Nat} {out : ExecuteResponse} {version : GoString} {node : Enclave}
    {measurements : Slice UInt8} (unforgeable : Unforgeable p svc w nodes replies)
    (relayApart : RelayApart p w)
    (collisionFree : p.toCrypto.CollisionFree (comparedTexts p w out version))
    (sent : replies i = .response out) (member : node ∈ nodes)
    (trusted : measurements ∈ node.trustedValues)
    (accepted : forEnclaveType svc node.enclaveType out.attestation
      (out.userDataHash p.toCrypto version) measurements = .ok ()) :
    ∃ id s resp version', w.lookup id = some s ∧ Attested.execute resp version' ∈ s.attested ∧
      resp.userDataPreimage p.toCrypto version' = out.userDataPreimage p.toCrypto version := by
  obtain ⟨id, s, found, a, inLog, userData⟩ :=
    unforgeable i out sent node member measurements trusted _ accepted
  have texts : a.preimage p = out.userDataPreimage p.toCrypto version := by
    apply collisionFree
    · exact Or.inr (Or.inr ⟨id, s, found, Or.inl ⟨a, inLog, rfl⟩⟩)
    · exact Or.inl rfl
    · exact Bytes32.data_injective userData
  have other := ExecuteResponse.userDataPreimage_ne p.toCrypto out version
  cases a with
  | execute resp version' => exact ⟨id, s, resp, version', found, inLog, texts⟩
  | publicKeys resp => exact (other.1 resp texts.symm).elim
  | setConfig config => exact (other.2.1 config texts.symm).elim
  | gateway body => exact (other.2.2 body texts.symm).elim
  | relay domainTag data =>
      exact (relayApart id s found domainTag data inLog out version texts).elim

/-- **End-to-end authenticity.** The host delivers whatever it likes to the enclaves and to
the client. For a response the client accepts there is a goroutine of an enclave that
executed the request for the DON and whose app returned exactly that output. -/
theorem response_authentic {w₀ : World} {ls : List WorldLabel} {metrics : Bool}
    {timeout : Except String Int} {reqs : List SignedComputeRequest} {eIDs : List Bytes32}
    {order : List Nat} {responses : List ExecuteResponse} {i : Nat} {r : SignedComputeRequest}
    {out : ExecuteResponse} {members : List (Slice UInt8)} {f : UInt32}
    (start : ∀ id s, w₀.lookup id = some s → Started s)
    (run : Run (World.step p) anyStep w₀ ls w)
    (unforgeable : Unforgeable p svc w nodes replies) (relayApart : RelayApart p w)
    (collisionFree : p.toCrypto.CollisionFree (comparedTexts p w out r.version))
    (accepted : executeBatch p.toCrypto svc metrics timeout nodes reqs eIDs replies order
      = .ok responses)
    (request : reqs[i]? = some r) (response : responses[i]? = some out)
    (validated : validateEnclaveSigners members f out.config = .ok ()) :
    ∃ id s callId call, w.lookup id = some s ∧ s.calls.lookup callId = some call ∧
      Executed p.toCrypto members f (r.hash p.toCrypto) out.output call := by
  obtain ⟨node, inPool, one⟩ := executeBatch_ok accepted request response
  obtain ⟨sent, hash, measurements, trusted, attestation⟩ := executeOne_ok one
  obtain ⟨id, s, resp, version', found, inLog, texts⟩ :=
    attested_response unforgeable relayApart collisionFree sent inPool trusted attestation
  have backed := Backed.of_run start run id s found
  obtain ⟨callId, call, output, atCall, returned, rfl⟩ := backed.attested resp version' inLog
  obtain ⟨_, sameOutput, sameConfig, sameHash⟩ := ExecuteResponse.userDataPreimage_fields texts
  have admitted := backed.admitted callId call atCall
  have callHash : call.hash = r.hash p.toCrypto := sameHash.trans hash
  have config : call.config = out.config := by
    apply EnclaveConfig.preimage_injective
    apply collisionFree
    · exact Or.inr (Or.inr ⟨id, s, found, Or.inr ⟨callId, call, atCall, rfl⟩⟩)
    · exact Or.inr (Or.inl rfl)
    · exact sameConfig
  obtain ⟨_, signers, bound⟩ := validateEnclaveSigners_ok_iff.mp validated
  rw [callHash] at admitted
  obtain ⟨voters, card, each⟩ := admitted.quorum
  refine ⟨id, s, callId, call, found, atCall, ?_, admitted.hashes, ⟨voters, ?_, ?_⟩, ?_, ?_⟩
  · exact returned.trans (congrArg some sameOutput)
  · have := UInt32.le_iff_toNat_le.mp bound
    rw [config] at card
    omega
  · intro member inVoters
    obtain ⟨allowed, signed⟩ := each member inVoters
    rw [config] at allowed
    exact ⟨signers.mem_iff.mp allowed, signed⟩
  · rwa [config]
  · rwa [config]

end

section

open Sample

/-- Attestation documents that are the user data itself. -/
def Sample.services : AttestationServices where
  nitro attestation userData _ :=
    if attestation.data = userData then .ok () else .error "wrong user data"
  describeMeasurements _ := ""

def Sample.node : Enclave := ⟨key 5, ⟨[∅], by decide⟩, .nitro⟩

def Sample.response : ExecuteResponse :=
  ⟨key 7, request.applicationRequestID, request.hash crypto, ∅, Sample.config 1, ∅⟩

def Sample.attestedResponse : ExecuteResponse :=
  { Sample.response with
    attestation := ⟨response.userDataHash crypto request.version, by decide +kernel⟩ }

def Sample.executionLabels : List WorldLabel :=
  ([keyGenerated, label 0 (.arrive 0 .post (.batch [signedRequest 1, signedRequest 2]))] ++
    List.replicate 5 (proceed 0 0) ++ [appReturns 0 0, attestorAnswers 0 0]).map (⟨0, ·⟩)

/-- One enclave executes a request that two of four members have signed. -/
theorem response_authentic_two_signers :
    ∃ w, Run (World.step platform) anyStep ((∅ : World).insert 0 (server 1)) executionLabels w ∧
      executeBatch crypto services false (.ok 0) [node] [signedRequest 1] [key 5]
        (fun _ => .response attestedResponse) [0] = .ok [attestedResponse] ∧
      ∃ id s callId call, w.lookup id = some s ∧ s.calls.lookup callId = some call ∧
        Executed crypto (Sample.config 1).signers.data 1 (request.hash crypto) ∅ call := by
  have found : ∃ w, Run (World.step platform) anyStep ((∅ : World).insert 0 (server 1))
      executionLabels w ∧ (w.lookup 0).isSome ∧ ∀ id s, w.lookup id = some s →
        s.attested = [.execute response request.version] ∧
        ∀ i call, s.calls.lookup i = some call → call.config = Sample.config 1 := by
    apply Run.exists_of_exec
    decide +kernel
  obtain ⟨w, run, isSome, facts⟩ := found
  obtain ⟨s, at0⟩ := Option.isSome_iff_exists.mp isSome
  have accepted : executeBatch crypto services false (.ok 0) [node] [signedRequest 1] [key 5]
      (fun _ => .response attestedResponse) [0] = .ok [attestedResponse] := by
    decide +kernel
  have first : [signedRequest 1][0]? = some (signedRequest 1) := rfl
  have answer : [attestedResponse][0]? = some attestedResponse := rfl
  have start : ∀ id s, ((∅ : World).insert 0 (server 1)).lookup id = some s → Started s :=
    forall_lookup_insert (fun id s found => by simp at found) ⟨_, _, _, _, _, rfl⟩
  have unforgeable :
      Unforgeable platform services w [node] fun _ => .response attestedResponse := by
    intro i out sent n member measurements _ userData ok
    cases sent
    cases List.mem_singleton.mp member
    have same : attestedResponse.attestation.data = userData := by
      simp only [forEnclaveType, node, services] at ok
      by_contra other
      rw [if_neg other] at ok
      cases ok
    refine ⟨0, s, at0, .execute response request.version, ?_, same⟩
    rw [(facts 0 s at0).1]
    exact List.mem_singleton.mpr rfl
  have relayApart : RelayApart platform w := by
    intro id s' at_ domainTag data member
    rw [(facts id s' at_).1] at member
    simp at member
  have collisionFree : crypto.CollisionFree
      (comparedTexts platform w attestedResponse (signedRequest 1).version) := by
    refine .of_list [response.userDataPreimage crypto request.version,
      (Sample.config 1).preimage] (fun text among => List.mem_pair.mpr ?_) (by decide +kernel)
    rcases among with rfl | rfl | ⟨id, s', at_, ⟨a, member, rfl⟩ | ⟨i, call, atCall, rfl⟩⟩
    · exact Or.inl rfl
    · exact Or.inr rfl
    · rw [(facts id s' at_).1] at member
      cases List.mem_singleton.mp member
      exact Or.inl rfl
    · rw [(facts id s' at_).2 i call atCall]
      exact Or.inr rfl
  have validated : validateEnclaveSigners (Sample.config 1).signers.data 1
      attestedResponse.config = .ok () := by
    unfold validateEnclaveSigners
    rw [if_neg (by decide), if_neg (by decide)]
    exact if_neg (not_not.mpr rfl)
  exact ⟨w, run, accepted, response_authentic start run unforgeable relayApart collisionFree
    accepted first answer validated⟩

end

end ConfidentialCompute
