import ConfidentialCompute.Enclave.Recovery

/-!
# What steers the enclave

The requests of a batch agree in what is hashed and signed, and the host is free to change
the rest: their order, their decryption shares, and the version of a request that is not a
legacy one. `handleExecute` looks at the first request of the batch, and two of its decisions
depend on the version of that request: whether the request is refused for want of one, and
whether the application's request identity goes into the attested user data.

A goroutine that nobody interferes with is followed through `proceeds`, which computes where
it stands after a number of steps; `Standing.proceeds` says that the server's steps do the
same.
-/

namespace ConfidentialCompute

open Go Runs

/-! ## A goroutine on its own -/

namespace EnclaveServer

/-- Where a goroutine goes next when it needs nothing from the app or the attestor. -/
def nextPC (p : Platform) (s : EnclaveServer) (now : Int) (call : ExecCall) : Option ExecPC :=
  match call.pc with
  | .checkInProgress =>
      some (if (s.inProgressReqs.get now call.hash).isSome then
        .done (.error statusConflict "request is already being processed")
      else .markInProgress)
  | .markInProgress => some .checkExecuted
  | .checkExecuted =>
      some (if (s.executedReqs.get now call.hash).isSome then
        .unmark (.error statusConflict "replay detected: request hash has already been executed")
      else .getKeyPair)
  | .getKeyPair => some (s.lookupKeyPair now call)
  | .combineShares kp => some (combine p now call kp)
  | .markExecuted resp => some (.unmark (.success resp))
  | .unmark reply => some (.done reply)
  | .running _ | .attesting _ | .done _ => none

/-- The goroutine after `n` such steps. -/
def proceeds (p : Platform) (s : EnclaveServer) (now : Int) : Nat → ExecCall → Option ExecCall
  | 0, call => some call
  | n + 1, call =>
      (nextPC p s now call).bind fun pc => proceeds p s now n { call with pc := pc }

end EnclaveServer

/-- The goroutine has not yet looked its hash up among the executed ones. -/
def ExecPC.isUncleared : ExecPC → Bool
  | .checkInProgress | .markInProgress | .checkExecuted => true
  | _ => false

/-- The goroutine `id` stands at `call`, and nothing that it has yet to read has changed
since the state `base`. -/
structure Standing (base : EnclaveServer) (now : Int) (id : Nat) (call : ExecCall)
    (s : EnclaveServer) : Prop where
  found : s.calls.lookup id = some call
  clock : s.clock = now
  inProgressReqs : call.pc = .checkInProgress → s.inProgressReqs = base.inProgressReqs
  executedReqs : call.pc.isUncleared = true → s.executedReqs = base.executedReqs
  keychain : s.keychain = base.keychain
  attested : s.attested = base.attested

def proceedLabel (now : Int) (id : Nat) : EnclaveLabel := ⟨now, .call id .proceed⟩

section

variable {p : Platform} {base s s' : EnclaveServer} {now : Int} {id : Nat} {call : ExecCall}

theorem step_call {l : EnclaveLabel} {input : CallInput} (action : l.action = .call id input)
    (forward : s.clock ≤ l.now) (found : s.calls.lookup id = some call) :
    s.step p l = { s with clock := l.now }.callStep p l.now id call input := by
  unfold EnclaveServer.step
  rw [if_pos forward, action]
  simp only [EnclaveServer.act, found]

/-- The goroutine moves on to a place from which it reads none of the caches. -/
theorem Standing.settle (st : Standing base now id call s) {pc : ExecPC}
    (cleared : pc.isUncleared = false) (calls : s'.calls = s.calls.insert id { call with pc := pc })
    (clock : s'.clock = now) (keychain : s'.keychain = s.keychain)
    (attested : s'.attested = s.attested) : Standing base now id { call with pc := pc } s' where
  found := by
    rw [calls]
    exact Finmap.lookup_insert _
  clock := clock
  inProgressReqs here := by
    have here : pc = .checkInProgress := here
    rw [here] at cleared
    cases cleared
  executedReqs uncleared := by cases cleared.symm.trans uncleared
  keychain := keychain.trans st.keychain
  attested := attested.trans st.attested

/-- The goroutine moves on and has yet to look its hash up among the executed ones. -/
theorem Standing.advance (st : Standing base now id call s) {pc : ExecPC}
    (before : call.pc.isUncleared = true) (later : pc ≠ .checkInProgress)
    (calls : s'.calls = s.calls.insert id { call with pc := pc }) (clock : s'.clock = now)
    (executedReqs : s'.executedReqs = s.executedReqs) (keychain : s'.keychain = s.keychain)
    (attested : s'.attested = s.attested) : Standing base now id { call with pc := pc } s' where
  found := by
    rw [calls]
    exact Finmap.lookup_insert _
  clock := clock
  inProgressReqs here := absurd here later
  executedReqs _ := executedReqs.trans (st.executedReqs before)
  keychain := keychain.trans st.keychain
  attested := attested.trans st.attested

theorem isUncleared_lookupKeyPair : (s.lookupKeyPair now call).isUncleared = false := by
  unfold EnclaveServer.lookupKeyPair
  split
  · rfl
  · split <;> rfl

theorem isUncleared_combine {kp : BoxKeypair} :
    (EnclaveServer.combine p now call kp).isUncleared = false := by
  unfold EnclaveServer.combine
  split <;> rfl

/-- A step of the server takes the goroutine where `nextPC` says, or there is none. -/
theorem Standing.proceed (st : Standing base now id call s) :
    match EnclaveServer.nextPC p base now call with
    | none => s.step p (proceedLabel now id) = none
    | some pc => ∃ s', s.step p (proceedLabel now id) = some s' ∧
        Standing base now id { call with pc := pc } s' := by
  have stepped : s.step p (proceedLabel now id) =
      { s with clock := now }.callStep p now id call .proceed :=
    step_call rfl (Int.le_of_eq st.clock) st.found
  rw [stepped]
  unfold EnclaveServer.nextPC EnclaveServer.callStep
  cases at_ : call.pc with
  | checkInProgress =>
      have uncleared : call.pc.isUncleared = true := congrArg ExecPC.isUncleared at_
      dsimp only
      rw [st.inProgressReqs at_]
      by_cases busy : (base.inProgressReqs.get now call.hash).isSome
      · simp only [busy, if_true]
        exact ⟨_, rfl, st.settle rfl rfl rfl rfl rfl⟩
      · simp only [busy]
        exact ⟨_, rfl, st.advance uncleared ExecPC.noConfusion rfl rfl rfl rfl rfl⟩
  | markInProgress =>
      have uncleared : call.pc.isUncleared = true := congrArg ExecPC.isUncleared at_
      exact ⟨_, rfl, st.advance uncleared ExecPC.noConfusion rfl rfl rfl rfl rfl⟩
  | checkExecuted =>
      dsimp only
      rw [st.executedReqs (congrArg ExecPC.isUncleared at_)]
      by_cases executed : (base.executedReqs.get now call.hash).isSome
      · simp only [executed, if_true]
        exact ⟨_, rfl, st.settle rfl rfl rfl rfl rfl⟩
      · simp only [executed]
        exact ⟨_, rfl, st.settle rfl rfl rfl rfl rfl⟩
  | getKeyPair =>
      have same : ({ s with clock := now } : EnclaveServer).lookupKeyPair now call =
          base.lookupKeyPair now call := by
        unfold EnclaveServer.lookupKeyPair
        rw [← st.keychain]
      dsimp only
      rw [same]
      exact ⟨_, rfl, st.settle isUncleared_lookupKeyPair rfl rfl rfl rfl⟩
  | combineShares kp => exact ⟨_, rfl, st.settle isUncleared_combine rfl rfl rfl rfl⟩
  | markExecuted resp => exact ⟨_, rfl, st.settle rfl rfl rfl rfl rfl⟩
  | unmark reply => exact ⟨_, rfl, st.settle rfl rfl rfl rfl rfl⟩
  | running _ => rfl
  | attesting _ => rfl
  | done _ => rfl

/-- The server's steps take the goroutine where `proceeds` says, or there are not so many. -/
theorem Standing.proceeds (n : Nat) (st : Standing base now id call s) :
    match EnclaveServer.proceeds p base now n call with
    | none => ∀ s', ¬ Run (EnclaveServer.step p) anyStep s
        (List.replicate n (proceedLabel now id)) s'
    | some call' => ∃ s', Run (EnclaveServer.step p) anyStep s
        (List.replicate n (proceedLabel now id)) s' ∧ Standing base now id call' s' := by
  induction n generalizing call s with
  | zero => exact ⟨s, .nil, st⟩
  | succ n ih =>
      unfold EnclaveServer.proceeds
      have one := st.proceed (p := p)
      cases next : EnclaveServer.nextPC p base now call with
      | none =>
          rw [next] at one
          intro s' run
          obtain ⟨_, _, taken, _⟩ := Run.cons_iff.mp run
          cases one.symm.trans taken
      | some pc =>
          rw [next] at one
          obtain ⟨s₁, taken, st₁⟩ := one
          have rest := ih st₁
          rw [Option.bind_some]
          cases result : EnclaveServer.proceeds p base now n { call with pc := pc } with
          | none =>
              rw [result] at rest
              intro s' run
              obtain ⟨_, _, taken', run'⟩ := Run.cons_iff.mp run
              cases taken.symm.trans taken'
              exact rest s' run'
          | some call' =>
              rw [result] at rest
              obtain ⟨s', run, st'⟩ := rest
              exact ⟨s', Run.cons_iff.mpr ⟨s₁, trivial, taken, run⟩, st'⟩

theorem proceeds_eq {n : Nat} {call' : ExecCall}
    (result : EnclaveServer.proceeds p s now n call = some call') :
    call' = { call with pc := call'.pc } := by
  induction n generalizing call with
  | zero =>
      cases result
      rfl
  | succ n ih =>
      obtain ⟨pc, _, rest⟩ := Option.bind_eq_some_iff.mp result
      have moved := ih rest
      exact moved

theorem proceeds_succ {n : Nat} {pc : ExecPC}
    (next : EnclaveServer.nextPC p s now call = some pc) :
    EnclaveServer.proceeds p s now (n + 1) call =
      EnclaveServer.proceeds p s now n { call with pc := pc } := by
  rw [EnclaveServer.proceeds, next, Option.bind_some]

/-- A goroutine whose hash is in use nowhere comes to the keypair lookup. -/
theorem proceeds_to_lookup {n : Nat} (start : call.pc = .checkInProgress)
    (idle : s.inProgressReqs.get now call.hash = none)
    (fresh : s.executedReqs.get now call.hash = none) :
    EnclaveServer.proceeds p s now (n + 4) call =
      EnclaveServer.proceeds p s now n { call with pc := s.lookupKeyPair now call } := by
  have first : EnclaveServer.nextPC p s now call = some .markInProgress := by
    unfold EnclaveServer.nextPC
    rw [start, idle]
    rfl
  have third : EnclaveServer.nextPC p s now { call with pc := .checkExecuted } =
      some .getKeyPair := by
    unfold EnclaveServer.nextPC
    dsimp only
    rw [fresh]
    rfl
  calc EnclaveServer.proceeds p s now (n + 4) call
    _ = EnclaveServer.proceeds p s now (n + 3) { call with pc := .markInProgress } :=
        proceeds_succ first
    _ = EnclaveServer.proceeds p s now (n + 2) { call with pc := .checkExecuted } :=
        proceeds_succ rfl
    _ = EnclaveServer.proceeds p s now (n + 1) { call with pc := .getKeyPair } :=
        proceeds_succ third
    _ = EnclaveServer.proceeds p s now n { call with pc := s.lookupKeyPair now call } :=
        proceeds_succ rfl

/-- A goroutine whose hash is in use does not get to the app. -/
theorem proceeds_refused (start : call.pc = .checkInProgress)
    (used : s.inProgressReqs.get now call.hash ≠ none ∨
      s.executedReqs.get now call.hash ≠ none) :
    EnclaveServer.proceeds p s now 5 call = none := by
  by_cases idle : s.inProgressReqs.get now call.hash = none
  · have executed : (s.executedReqs.get now call.hash).isSome = true := by
      rcases used with busy | executed
      · exact absurd idle busy
      · exact Option.isSome_iff_ne_none.mpr executed
    have first : EnclaveServer.nextPC p s now call = some .markInProgress := by
      unfold EnclaveServer.nextPC
      rw [start, idle]
      rfl
    have second : EnclaveServer.nextPC p s now { call with pc := .markInProgress } =
        some .checkExecuted := rfl
    rw [proceeds_succ first, proceeds_succ second]
    simp only [EnclaveServer.proceeds, EnclaveServer.nextPC, executed, if_true,
      Option.bind_some, Option.bind_none]
  · have busy : (s.inProgressReqs.get now call.hash).isSome = true :=
      Option.isSome_iff_ne_none.mpr idle
    simp only [EnclaveServer.proceeds, EnclaveServer.nextPC, start, busy, if_true,
      Option.bind_some, Option.bind_none]

/-- Five steps take a new goroutine to the app exactly when its hash is not in use, its
fields and its keypair are in order, and its secrets can be recovered. -/
theorem proceeds_running_iff (start : call.pc = .checkInProgress) {secrets : Secrets} :
    EnclaveServer.proceeds p s now 5 call = some { call with pc := .running secrets } ↔
      s.inProgressReqs.get now call.hash = none ∧ s.executedReqs.get now call.hash = none ∧
        ∃ kp, s.lookupKeyPair now call = .combineShares kp ∧
          EnclaveServer.combine p now call kp = .running secrets := by
  by_cases unused : s.inProgressReqs.get now call.hash = none ∧
      s.executedReqs.get now call.hash = none
  · rw [proceeds_to_lookup start unused.1 unused.2]
    simp only [unused, true_and]
    rcases lookupKeyPair_cases s now call with ⟨reply, looked⟩ | ⟨kp, looked⟩
    · have refused : EnclaveServer.proceeds p s now 1 { call with pc := .unmark reply } =
          some { call with pc := .done reply } := proceeds_succ rfl
      rw [looked, refused]
      simp
    · have combined : EnclaveServer.proceeds p s now 1 { call with pc := .combineShares kp } =
          some { call with pc := EnclaveServer.combine p now call kp } := proceeds_succ rfl
      rw [looked, combined]
      constructor
      · intro running
        exact ⟨kp, rfl, congrArg ExecCall.pc (Option.some.inj running)⟩
      · intro recovered
        obtain ⟨kp', same, running⟩ := recovered
        cases same
        rw [running]
  · rw [proceeds_refused start (by tauto)]
    simp only [reduceCtorEq, false_iff]
    intro passes
    obtain ⟨idle, fresh, _⟩ := passes
    exact unused ⟨idle, fresh⟩

end

/-! ## A batch on its own -/

/-- A goroutine that has just arrived. -/
def EnclaveServer.arrived (s : EnclaveServer) (first : SignedComputeRequest)
    (rest : List SignedComputeRequest) (hash : Bytes32) : ExecCall :=
  ⟨s.config, first, rest, hash, .checkInProgress, none⟩

/-- A batch arrives and makes its way to the app. -/
def approach (now : Int) (id : Nat) (reqs : List SignedComputeRequest) : List EnclaveLabel :=
  ⟨now, .arrive id .post (.batch reqs)⟩ :: List.replicate 5 (proceedLabel now id)

/-- The app returns, the response is attested and sent. -/
def conclusion (later : Int) (id : Nat) (output att : Slice UInt8) : List EnclaveLabel :=
  [⟨later, .call id (.appReturns (.ok output))⟩,
    ⟨later, .call id (.attestorAnswers (.ok att) none)⟩, proceedLabel later id,
    proceedLabel later id]

/-- `handleExecute`, undisturbed, hands the batch to the app. -/
def Accepts (p : Platform) (s : EnclaveServer) (now : Int) (id : Nat)
    (reqs : List SignedComputeRequest) : Prop :=
  ∃ s' call secrets, Run (EnclaveServer.step p) anyStep s (approach now id reqs) s' ∧
    s'.calls.lookup id = some call ∧ call.pc = .running secrets

/-- `handleExecute`, undisturbed, answers the batch with success after the app has returned
`output`, and has had `userData` attested for it. -/
def Succeeds (p : Platform) (s : EnclaveServer) (now : Int) (id : Nat)
    (reqs : List SignedComputeRequest) (output : Slice UInt8) (userData : Bytes) : Prop :=
  ∃ later att s' call resp a,
    Run (EnclaveServer.step p) anyStep s (approach now id reqs ++ conclusion later id output att)
      s' ∧
    s'.calls.lookup id = some call ∧ call.pc = .done (.success resp) ∧
    s'.attested = s.attested ++ [a] ∧ a.userData p = userData

section

variable {p : Platform} {s : EnclaveServer} {now : Int} {id : Nat} {first : SignedComputeRequest}
  {rest : List SignedComputeRequest} {hash : Bytes32}

theorem standing_arrived (admitted : admitBatch p.toCrypto s.config first rest = .ok hash)
    (forward : s.clock ≤ now) (unused : s.calls.lookup id = none) :
    ∃ s₁, s.step p ⟨now, .arrive id .post (.batch (first :: rest))⟩ = some s₁ ∧
      Standing s now id (s.arrived first rest hash) s₁ := by
  refine ⟨{ s with clock := now }.setCall id (s.arrived first rest hash), ?_, ?_⟩
  · unfold EnclaveServer.step
    rw [if_pos forward]
    simp only [EnclaveServer.act, unused, EnclaveServer.arrive, admitted]
    rfl
  · exact ⟨Finmap.lookup_insert _, rfl, fun _ => rfl, fun _ => rfl, rfl, rfl⟩

/-- What a batch has to meet to be taken on at all. -/
theorem forward_of_arrival {s₁ : EnclaveServer} {reqs : List SignedComputeRequest}
    (taken : s.step p ⟨now, .arrive id .post (.batch reqs)⟩ = some s₁) :
    s.clock ≤ now ∧ s.calls.lookup id = none := by
  obtain ⟨forward, acted⟩ := EnclaveServer.step_eq_some taken
  refine ⟨forward, ?_⟩
  cases found : s.calls.lookup id with
  | none => rfl
  | some call =>
      simp only [EnclaveServer.act, found] at acted
      cases acted

/-- Where an admitted batch stands at the end of its approach. -/
theorem standing_approach (admitted : admitBatch p.toCrypto s.config first rest = .ok hash)
    {s' : EnclaveServer}
    (run : Run (EnclaveServer.step p) anyStep s (approach now id (first :: rest)) s') :
    s.clock ≤ now ∧ s.calls.lookup id = none ∧
      ∃ call, EnclaveServer.proceeds p s now 5 (s.arrived first rest hash) = some call ∧
        Standing s now id call s' := by
  obtain ⟨s₁, _, taken, run'⟩ := Run.cons_iff.mp run
  obtain ⟨forward, unused⟩ := forward_of_arrival taken
  obtain ⟨s₁', taken', standing⟩ := standing_arrived admitted forward unused
  cases taken.symm.trans taken'
  have result := standing.proceeds (p := p) 5
  refine ⟨forward, unused, ?_⟩
  cases goes : EnclaveServer.proceeds p s now 5 (s.arrived first rest hash) with
  | none =>
      rw [goes] at result
      exact (result s' run').elim
  | some call =>
      rw [goes] at result
      obtain ⟨s'', run'', standing'⟩ := result
      cases run'.unique run''
      exact ⟨call, rfl, standing'⟩

/-- The way to the app, by what the goroutine computes. -/
theorem run_approach (admitted : admitBatch p.toCrypto s.config first rest = .ok hash)
    (forward : s.clock ≤ now) (unused : s.calls.lookup id = none) {call : ExecCall}
    (goes : EnclaveServer.proceeds p s now 5 (s.arrived first rest hash) = some call) :
    ∃ s', Run (EnclaveServer.step p) anyStep s (approach now id (first :: rest)) s' ∧
      Standing s now id call s' := by
  obtain ⟨s₁, taken, standing⟩ := standing_arrived admitted forward unused
  have result := standing.proceeds (p := p) 5
  rw [goes] at result
  obtain ⟨s', run, standing'⟩ := result
  exact ⟨s', Run.cons_iff.mpr ⟨s₁, trivial, taken, run⟩, standing'⟩

theorem checkFields_none_iff {req : ComputeRequest} :
    checkFields req = none ↔ req.ciphertexts.length = req.ciphertextNames.length ∧
      req.appID.length ≠ 0 ∧ req.version.length ≠ 0 := by
  unfold checkFields
  split
  · rename_i miscounted
    simp only [reduceCtorEq, false_iff]
    exact fun passed => miscounted passed.1
  · rename_i counted
    split
    · rename_i noApp
      simp only [reduceCtorEq, false_iff]
      exact fun passed => passed.2.1 noApp
    · rename_i app
      split
      · rename_i noVersion
        simp only [reduceCtorEq, false_iff]
        exact fun passed => passed.2.2 noVersion
      · rename_i version
        exact iff_of_true rfl ⟨not_not.mp counted, app, version⟩

theorem lookupKeyPair_iff {call : ExecCall} {kp : BoxKeypair} :
    s.lookupKeyPair now call = .combineShares kp ↔
      checkFields call.req.toComputeRequest = none ∧
        s.keychain.getKeyPair now call.req.enclaveEphemeralPublicKey = .ok kp := by
  unfold EnclaveServer.lookupKeyPair
  cases checkFields call.req.toComputeRequest with
  | some reply => simp
  | none =>
      cases s.keychain.getKeyPair now call.req.enclaveEphemeralPublicKey with
      | error e => simp
      | ok kp' => simp

/-- The checks of a batch that look at its signed content and at its shares. -/
structure ChecksPass (p : Platform) (s : EnclaveServer) (now : Int) (id : Nat)
    (first : SignedComputeRequest) (rest : List SignedComputeRequest) (hash : Bytes32) :
    Prop where
  clock : s.clock ≤ now
  unused : s.calls.lookup id = none
  idle : s.inProgressReqs.get now hash = none
  fresh : s.executedReqs.get now hash = none
  counted : first.ciphertexts.length = first.ciphertextNames.length
  app : first.appID.length ≠ 0
  recoverable : ∃ kp, s.keychain.getKeyPair now first.enclaveEphemeralPublicKey = .ok kp ∧
    ∃ node ∈ first :: rest, (s.arrived first rest hash).Usable p kp now node

theorem proceeds_arrived_iff {plaintext : Slice UInt8 → Slice UInt8}
    (decrypts : p.Decrypts plaintext) :
    (s.clock ≤ now ∧ s.calls.lookup id = none ∧
        ∃ secrets, EnclaveServer.proceeds p s now 5 (s.arrived first rest hash) =
          some { s.arrived first rest hash with pc := .running secrets }) ↔
      ChecksPass p s now id first rest hash ∧ first.version.length ≠ 0 := by
  constructor
  · intro ⟨forward, unused, secrets, goes⟩
    obtain ⟨idle, fresh, kp, looked, combined⟩ := (proceeds_running_iff rfl).mp goes
    obtain ⟨checked, found⟩ := lookupKeyPair_iff.mp looked
    obtain ⟨counted, app, version⟩ := checkFields_none_iff.mp checked
    exact ⟨⟨forward, unused, idle, fresh, counted, app, kp, found,
      usable_of_running counted.symm combined⟩, version⟩
  · intro ⟨passes, version⟩
    obtain ⟨kp, found, usable⟩ := passes.recoverable
    have checked : checkFields first.toComputeRequest = none :=
      checkFields_none_iff.mpr ⟨passes.counted, passes.app, version⟩
    have combined : EnclaveServer.combine p now (s.arrived first rest hash) kp =
        .running (storeAll ∅ (first.namedPlaintexts plaintext)) :=
      combine_running decrypts passes.counted.symm usable
    exact ⟨passes.clock, passes.unused, _, (proceeds_running_iff rfl).mpr
      ⟨passes.idle, passes.fresh, kp, lookupKeyPair_iff.mpr ⟨checked, found⟩, combined⟩⟩

/-- An admitted batch gets to the app exactly when it passes the checks of its signed content
and its first request has a version. -/
theorem accepts_iff {plaintext : Slice UInt8 → Slice UInt8} (decrypts : p.Decrypts plaintext)
    (admitted : admitBatch p.toCrypto s.config first rest = .ok hash) :
    Accepts p s now id (first :: rest) ↔
      ChecksPass p s now id first rest hash ∧ first.version.length ≠ 0 := by
  rw [← proceeds_arrived_iff decrypts]
  constructor
  · intro ⟨s', call, secrets, run, found, running⟩
    obtain ⟨forward, unused, call', goes, standing⟩ := standing_approach admitted run
    cases found.symm.trans standing.found
    refine ⟨forward, unused, secrets, ?_⟩
    rw [goes, proceeds_eq goes, running]
  · intro ⟨forward, unused, secrets, goes⟩
    obtain ⟨s', run, standing⟩ := run_approach admitted forward unused goes
    exact ⟨s', _, secrets, run, standing.found, rfl⟩

/-- From the app on, a goroutine that nobody disturbs succeeds. -/
theorem run_conclusion {s' : EnclaveServer} {call : ExecCall} {secrets : Secrets}
    (standing : Standing s now id call s') (running : call.pc = .running secrets) {later : Int}
    (forward : now ≤ later) (output att : Slice UInt8) :
    ∃ s'' call' resp, Run (EnclaveServer.step p) anyStep s' (conclusion later id output att) s'' ∧
      s''.calls.lookup id = some call' ∧ call'.pc = .done (.success resp) ∧
      s''.attested =
        s.attested ++ [.execute (EnclaveServer.responseTo call output) call.req.version] := by
  have clock : s'.clock ≤ later := Int.le_trans (Int.le_of_eq standing.clock) forward
  let resp := EnclaveServer.responseTo call output
  let called := { call with pc := .attesting output, output := some output }
  let answered := { called with pc := .markExecuted { resp with attestation := att } }
  let s₁ := { s' with clock := later }.setCall id called
  let s₂ := (s₁.attest (.execute resp call.req.version)).setCall id answered
  have returned : s'.step p ⟨later, .call id (.appReturns (.ok output))⟩ = some s₁ := by
    rw [step_call rfl clock standing.found]
    simp only [EnclaveServer.callStep, running]
    rfl
  have attested : s₁.step p ⟨later, .call id (.attestorAnswers (.ok att) none)⟩ = some s₂ := by
    rw [step_call rfl (Int.le_refl later) (Finmap.lookup_insert _)]
    rfl
  have sending : Standing s₂ later id answered s₂ :=
    ⟨Finmap.lookup_insert _, rfl, fun _ => rfl, fun _ => rfl, rfl, rfl⟩
  obtain ⟨s'', run, sent⟩ := sending.proceeds (p := p) 2
  refine ⟨s'', _, _, Run.cons_iff.mpr ⟨s₁, trivial, returned,
    Run.cons_iff.mpr ⟨s₂, trivial, attested, run⟩⟩, sent.found, rfl, ?_⟩
  rw [sent.attested, ← standing.attested]
  rfl

theorem running_of_appReturns {call : ExecCall} {s' : EnclaveServer}
    {result : Outcome ExecuteError (Slice UInt8)}
    (taken : s.callStep p now id call (.appReturns result) = some s') :
    ∃ secrets, call.pc = .running secrets := by
  unfold EnclaveServer.callStep at taken
  cases at_ : call.pc with
  | running secrets => exact ⟨secrets, rfl⟩
  | _ =>
      rw [at_] at taken
      cases taken

/-- What is attested in answer to a batch. -/
def EnclaveServer.attestation (s : EnclaveServer) (first : SignedComputeRequest)
    (rest : List SignedComputeRequest) (hash : Bytes32) (output : Slice UInt8) : Attested :=
  .execute (EnclaveServer.responseTo (s.arrived first rest hash) output) first.version

/-- A batch that succeeds has got to the app, and there is one thing attested in answer. -/
theorem userData_of_succeeds (admitted : admitBatch p.toCrypto s.config first rest = .ok hash)
    {output : Slice UInt8} {userData : Bytes}
    (succeeds : Succeeds p s now id (first :: rest) output userData) :
    Accepts p s now id (first :: rest) ∧
      userData = (s.attestation first rest hash output).userData p := by
  obtain ⟨later, att, s', call', resp, a, run, _, _, attested, rfl⟩ := succeeds
  obtain ⟨s₁, approached, concluded⟩ := run.split
  obtain ⟨_, _, call, goes, standing⟩ := standing_approach admitted approached
  obtain ⟨_, _, returned, _⟩ := Run.cons_iff.mp concluded
  have forward := (EnclaveServer.step_eq_some returned).1
  obtain ⟨secrets, running⟩ : ∃ secrets, call.pc = .running secrets := by
    rw [step_call rfl forward standing.found] at returned
    exact running_of_appReturns returned
  refine ⟨⟨s₁, call, secrets, approached, standing.found, running⟩, ?_⟩
  obtain ⟨s'', _, _, concluded', _, _, attested'⟩ :=
    run_conclusion (p := p) standing running (standing.clock ▸ forward) output att
  cases concluded.unique concluded'
  cases List.append_cancel_left (attested.symm.trans attested')
  rw [proceeds_eq goes]
  rfl

theorem succeeds_of_accepts (admitted : admitBatch p.toCrypto s.config first rest = .ok hash)
    (accepts : Accepts p s now id (first :: rest)) (output : Slice UInt8) :
    Succeeds p s now id (first :: rest) output
      ((s.attestation first rest hash output).userData p) := by
  obtain ⟨s₁, call, secrets, approached, found, running⟩ := accepts
  obtain ⟨_, _, call', goes, standing⟩ := standing_approach admitted approached
  cases found.symm.trans standing.found
  obtain ⟨s', call', resp, concluded, answered, done, attested⟩ :=
    run_conclusion (p := p) standing running (Int.le_refl now) output ∅
  refine ⟨now, ∅, s', call', resp, _, approached.trans concluded, answered, done, attested, ?_⟩
  rw [proceeds_eq goes]
  rfl

end

/-! ## Two batches -/

section

variable {p : Platform} {s : EnclaveServer} {now : Int} {id : Nat} {a b : SignedComputeRequest}
  {restA restB : List SignedComputeRequest} {hash : Bytes32}

/-- What the enclave looks at but for the version is signed, or is a share set. -/
theorem ChecksPass.of_same (same : SameBody a.toComputeRequest b.toComputeRequest)
    (shares : ((a :: restA).map (·.encryptedDecryptionKeyShares)).Perm
      ((b :: restB).map (·.encryptedDecryptionKeyShares)))
    (passes : ChecksPass p s now id a restA hash) : ChecksPass p s now id b restB hash where
  clock := passes.clock
  unused := passes.unused
  idle := passes.idle
  fresh := passes.fresh
  counted := by
    rw [← same.ciphertexts, ← same.ciphertextNames]
    exact passes.counted
  app := by
    rw [← same.appID]
    exact passes.app
  recoverable := by
    obtain ⟨kp, found, node, member, usable⟩ := passes.recoverable
    rw [same.enclaveEphemeralPublicKey] at found
    have sent : node.encryptedDecryptionKeyShares ∈
        (b :: restB).map (·.encryptedDecryptionKeyShares) :=
      shares.mem_iff.mp (List.mem_map_of_mem member)
    obtain ⟨node', member', sameShares⟩ := List.mem_map.mp sent
    refine ⟨kp, found, node', member', ?_⟩
    unfold ExecCall.Usable effectiveMasterPublicKey EnclaveServer.arrived at usable ⊢
    dsimp only at usable ⊢
    rw [sameShares, ← same.ciphertexts, ← same.masterPublicKey]
    exact usable

/-- The identity of the application's request is signed when the version is not a legacy
one. -/
theorem applicationRequestID_eq (texts : a.preimage = b.preimage) (otherA : ¬ IsLegacy a.version)
    (otherB : ¬ IsLegacy b.version) : a.applicationRequestID = b.applicationRequestID := by
  have field := (ComputeRequest.preimage_eq_iff.mp texts).2
  rwa [ComputeRequest.versionField_other otherA, ComputeRequest.versionField_other otherB]
    at field

/-- The answers to two batches with one signed content have the same stream exactly when both
first requests are legacy ones or neither is. -/
theorem attestation_preimage_iff (texts : a.preimage = b.preimage) (output : Slice UInt8) :
    (s.attestation a restA hash output).preimage p =
        (s.attestation b restB hash output).preimage p ↔
      (IsLegacy a.version ↔ IsLegacy b.version) := by
  constructor
  · intro same
    exact (ExecuteResponse.userDataPreimage_layout same).1
  · intro legacy
    have requestID := (ComputeRequest.preimage_eq_iff.mp texts).1.requestID
    unfold EnclaveServer.attestation Attested.preimage ExecuteResponse.userDataPreimage
    unfold EnclaveServer.responseTo EnclaveServer.arrived
    dsimp only
    rw [requestID]
    by_cases legacyA : IsLegacy a.version
    · rw [if_pos (by exact legacyA), if_pos (by exact legacy.mp legacyA)]
    · have legacyB := fun legacyB => legacyA (legacy.mpr legacyB)
      rw [if_neg (by exact legacyA), if_neg (by exact legacyB),
        applicationRequestID_eq texts legacyA legacyB]

theorem not_legacy_of_empty {version : GoString} (empty : version.length = 0) :
    ¬ IsLegacy version := by
  intro legacy
  have none_ : version.data = [] := List.length_eq_zero_iff.mp empty
  exact absurd (none_.symm.trans legacy) (by decide)

/-- Undisturbed, `handleExecute` accepts both batches or neither, and when both succeed with
one output of the app, the same user data is attested. -/
def TreatedAlike (p : Platform) (s : EnclaveServer) (now : Int) (id : Nat)
    (batch batch' : List SignedComputeRequest) (output : Slice UInt8) : Prop :=
  (Accepts p s now id batch ↔ Accepts p s now id batch') ∧
    ∀ userData userData', Succeeds p s now id batch output userData →
      Succeeds p s now id batch' output userData' → userData = userData'

/-- **Two batches with the same signed content.** They are admitted by one configuration
under one hash and carry the same share sets, in any order. They are treated alike exactly
when, unless both are refused for what is signed or for their shares, their first requests
agree on whether there is a version and on whether it is a legacy one. -/
theorem signed_content_steers (p : Platform) (plaintext : Slice UInt8 → Slice UInt8)
    (decrypts : p.Decrypts plaintext) (s : EnclaveServer) (now : Int) (id : Nat)
    (a b : SignedComputeRequest) (restA restB : List SignedComputeRequest) (hash : Bytes32)
    (admittedA : admitBatch p.toCrypto s.config a restA = .ok hash)
    (admittedB : admitBatch p.toCrypto s.config b restB = .ok hash)
    (shares : ((a :: restA).map (·.encryptedDecryptionKeyShares)).Perm
      ((b :: restB).map (·.encryptedDecryptionKeyShares)))
    (output : Slice UInt8) (requests : p.toCrypto.CollisionFree {a.preimage, b.preimage})
    (answers : p.toCrypto.CollisionFree
      {(s.attestation a restA hash output).preimage p,
        (s.attestation b restB hash output).preimage p}) :
    TreatedAlike p s now id (a :: restA) (b :: restB) output ↔
      (ChecksPass p s now id a restA hash →
        (a.version.length = 0 ↔ b.version.length = 0) ∧
          (IsLegacy a.version ↔ IsLegacy b.version)) := by
  have texts : a.preimage = b.preimage :=
    requests _ (Or.inl rfl) _ (Or.inr rfl)
      ((admitBatch_ok admittedA).1.symm.trans (admitBatch_ok admittedB).1)
  have body := (ComputeRequest.preimage_eq_iff.mp texts).1
  have passes_iff : ChecksPass p s now id a restA hash ↔ ChecksPass p s now id b restB hash :=
    ⟨.of_same body shares,
      .of_same (ComputeRequest.preimage_eq_iff.mp texts.symm).1 shares.symm⟩
  have userData_iff : (s.attestation a restA hash output).userData p =
      (s.attestation b restB hash output).userData p ↔
        (IsLegacy a.version ↔ IsLegacy b.version) := by
    rw [← attestation_preimage_iff texts output]
    constructor
    · intro same
      exact answers _ (Or.inl rfl) _ (Or.inr rfl) (Bytes32.data_injective same)
    · intro same
      unfold Attested.userData
      rw [same]
  have acceptsA : Accepts p s now id (a :: restA) ↔
      ChecksPass p s now id a restA hash ∧ a.version.length ≠ 0 := accepts_iff decrypts admittedA
  have acceptsB : Accepts p s now id (b :: restB) ↔
      ChecksPass p s now id a restA hash ∧ b.version.length ≠ 0 := by
    rw [passes_iff]
    exact accepts_iff decrypts admittedB
  constructor
  · intro ⟨alike, same⟩ passes
    rw [acceptsA, acceptsB] at alike
    simp only [passes, true_and] at alike
    refine ⟨not_iff_not.mp alike, ?_⟩
    by_cases version : a.version.length = 0
    · -- no version is not a legacy version, on either side
      have version' := (not_iff_not.mp alike).mp version
      exact iff_of_false (not_legacy_of_empty version) (not_legacy_of_empty version')
    · have version' := alike.mp version
      rw [← userData_iff]
      exact same _ _ (succeeds_of_accepts admittedA (acceptsA.mpr ⟨passes, version⟩) output)
        (succeeds_of_accepts admittedB (acceptsB.mpr ⟨passes, version'⟩) output)
  · intro agree
    refine ⟨?_, fun userData userData' succeeds succeeds' => ?_⟩
    · rw [acceptsA, acceptsB]
      exact and_congr_right fun passes => not_congr (agree passes).1
    · obtain ⟨accepted, isUserData⟩ := userData_of_succeeds admittedA succeeds
      obtain ⟨_, isUserData'⟩ := userData_of_succeeds admittedB succeeds'
      rw [isUserData, isUserData', userData_iff]
      exact (agree (acceptsA.mp accepted).1).2

end

namespace Sample

def keyed : EnclaveServer :=
  { server 0 with
    keychain := (server 0).keychain.createKeyPair 0 0 (key 9) (key 9) }

/-- The host has taken the version out of the request. -/
def unversioned : SignedComputeRequest := { signedRequest 1 with version := ∅ }

theorem checksPass_signed (n : UInt8) (rest : List SignedComputeRequest) :
    ChecksPass platform keyed 0 0 (signedRequest n) rest (request.hash crypto) where
  clock := Int.le_refl 0
  unused := rfl
  idle := rfl
  fresh := rfl
  counted := rfl
  app := Nat.one_ne_zero
  recoverable := by
    have found : keyed.keychain.getKeyPair 0 (signer 9) =
        .ok ⟨key 9, key 9, defaultKeypairExpiration, 0⟩ := by
      decide
    exact ⟨_, found, signedRequest n, List.mem_cons_self, .nil⟩

end Sample

section

open Sample

/-- The two requests of a batch trade places. -/
theorem signed_content_steers_reordered :
    TreatedAlike platform keyed 0 0 [signedRequest 1, signedRequest 2]
      [signedRequest 2, signedRequest 1] (one 5) := by
  have texts : (signedRequest 1).preimage = (signedRequest 2).preimage := rfl
  refine (signed_content_steers platform id Sample.decrypts keyed 0 0 (signedRequest 1)
    (signedRequest 2) [signedRequest 2] [signedRequest 1] (request.hash crypto)
    (by decide +kernel) (by decide +kernel) (.refl _) (one 5) (Crypto.collisionFree_pair texts)
    (Crypto.collisionFree_pair ?_)).mpr ?_
  · exact (attestation_preimage_iff texts (one 5)).mpr Iff.rfl
  · exact fun _ => ⟨Iff.rfl, Iff.rfl⟩

/-- The host gets a signed request refused. -/
theorem version_steers :
    admitBatch crypto keyed.config (signedRequest 1) [] = .ok (request.hash crypto) ∧
      admitBatch crypto keyed.config unversioned [] = .ok (request.hash crypto) ∧
      unversioned.encryptedDecryptionKeyShares = (signedRequest 1).encryptedDecryptionKeyShares ∧
      ∀ output, ¬ TreatedAlike platform keyed 0 0 [signedRequest 1] [unversioned] output := by
  have admitted : admitBatch crypto keyed.config (signedRequest 1) [] =
      .ok (request.hash crypto) := by
    decide +kernel
  have admitted' : admitBatch crypto keyed.config unversioned [] =
      .ok (request.hash crypto) := by
    decide +kernel
  refine ⟨admitted, admitted', rfl, fun output alike => ?_⟩
  have accepted : Accepts platform keyed 0 0 [signedRequest 1] :=
    (accepts_iff Sample.decrypts admitted).mpr ⟨checksPass_signed 1 [], Nat.one_ne_zero⟩
  have version := ((accepts_iff Sample.decrypts admitted').mp (alike.1.mp accepted)).2
  exact version rfl

end

end ConfidentialCompute
