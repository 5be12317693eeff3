import ConfidentialCompute.Enclave.Steps
import ConfidentialCompute.Sample

/-!
# Concurrent executions of one request

`handleExecute` looks a hash up in `inProgressReqs`, and marks it there in a second
section. Between the two sections another goroutine with the same hash can pass the same
look-up, and then both execute. Apart from that window the protection works: as long as
no goroutine looks its hash up while another one stands between its own look-up and its
mark, at most one goroutine for each hash is inside `app.Execute`, and at most one ever
succeeds.
-/

namespace ConfidentialCompute

open Go Runs

/-- At most one goroutine for each hash is at a stage that `stage` accepts. -/
def Exclusive (calls : GoMap Nat ExecCall) (stage : ExecPC → Bool) : Prop :=
  ∀ i a, calls.lookup i = some a → ∀ j b, calls.lookup j = some b →
    a.hash = b.hash → stage a.pc → stage b.pc → i = j

instance {calls : GoMap Nat ExecCall} {stage : ExecPC → Bool} :
    Decidable (Exclusive calls stage) :=
  inferInstanceAs (Decidable (∀ _ _, _ → ∀ _ _, _))

/-- A goroutine may move within the stage, and enter it when no other one is there. -/
theorem Exclusive.insert {calls : GoMap Nat ExecCall} {stage : ExecPC → Bool} {id : Nat}
    {call call' : ExecCall} (excl : Exclusive calls stage) (found : calls.lookup id = some call)
    (hash : call'.hash = call.hash)
    (enters : stage call'.pc → stage call.pc ∨
      ∀ j b, calls.lookup j = some b → b.hash = call.hash → ¬ stage b.pc) :
    Exclusive (calls.insert id call') stage := by
  have apart : ∀ j b, calls.lookup j = some b → b.hash = call.hash → stage call'.pc →
      stage b.pc → j = id := by
    intro j b other same here there
    rcases enters here with already | nobody
    · exact excl j b other id call found same there already
    · exact (nobody j b other same there).elim
  intro i a ati j b atj same here there
  rcases lookup_insert_cases ati with ⟨rfl, rfl⟩ | ⟨_, oldi⟩
  · rcases lookup_insert_cases atj with ⟨rfl, _⟩ | ⟨_, oldj⟩
    · rfl
    · exact (apart j b oldj (same.symm.trans hash) here there).symm
  · rcases lookup_insert_cases atj with ⟨rfl, rfl⟩ | ⟨_, oldj⟩
    · exact apart i a oldi (same.trans hash) there here
    · exact excl i a oldi j b oldj same here there

theorem Exclusive.insert_idle {calls : GoMap Nat ExecCall} {stage : ExecPC → Bool} {id : Nat}
    {call : ExecCall} (excl : Exclusive calls stage) (idle : ¬ stage call.pc) :
    Exclusive (calls.insert id call) stage := by
  intro i a ati j b atj same here there
  rcases lookup_insert_cases ati with ⟨rfl, rfl⟩ | ⟨_, oldi⟩
  · exact (idle here).elim
  · rcases lookup_insert_cases atj with ⟨rfl, rfl⟩ | ⟨_, oldj⟩
    · exact (idle there).elim
    · exact excl i a oldi j b oldj same here there

/-! ## Conditions on steps -/

namespace EnclaveServer

/-- The store the goroutine makes next, if any, does not overflow its cache. -/
def WithinCap (s : EnclaveServer) (call : ExecCall) : Prop :=
  (call.pc.isMarking → s.inProgressReqs.HasRoom call.hash) ∧
    (call.pc.isRecording → s.executedReqs.HasRoom call.hash)

instance (s : EnclaveServer) (call : ExecCall) : Decidable (s.WithinCap call) :=
  inferInstanceAs (Decidable ((_ → _) ∧ (_ → _)))

/-- No entry of the two caches of request hashes has expired, and no cap is exceeded. -/
def CachesKept (s : EnclaveServer) (l : EnclaveLabel) : Prop :=
  s.inProgressReqs.Fresh l.now ∧ s.executedReqs.Fresh l.now ∧
    ∀ call ∈ s.caller l, s.WithinCap call

instance (s : EnclaveServer) (l : EnclaveLabel) : Decidable (s.CachesKept l) :=
  inferInstanceAs (Decidable ((∀ _ _, _) ∧ (∀ _ _, _) ∧
    ∀ call ∈ s.caller l, s.WithinCap call))

/-- A goroutine does not look its hash up while another goroutine with that hash stands
between its look-up and its mark. -/
def ChecksApart (s : EnclaveServer) (l : EnclaveLabel) : Prop :=
  ∀ call ∈ s.caller l, call.pc.isChecking → ∀ id other, s.calls.lookup id = some other →
    other.hash = call.hash → ¬ other.pc.isMarking

instance (s : EnclaveServer) (l : EnclaveLabel) : Decidable (s.ChecksApart l) :=
  inferInstanceAs (Decidable (∀ call ∈ s.caller l, call.pc.isChecking → ∀ _ _, _))

end EnclaveServer

/-! ## The invariant -/

/-- The goroutine has passed the look-up and still counts on its mark. -/
def ExecPC.isHeld (pc : ExecPC) : Bool := pc.isMarking || pc.isMarked

theorem ExecPC.isHeld_of_isMarked {pc : ExecPC} (marked : pc.isMarked) : pc.isHeld := by
  simp [isHeld, marked]

/-- How the goroutines and the two caches of request hashes fit together. -/
structure OneAtATime (s : EnclaveServer) : Prop where
  held : Exclusive s.calls ExecPC.isHeld
  marked : ∀ i a, s.calls.lookup i = some a → a.pc.isMarked →
    s.inProgressReqs.items.lookup a.hash ≠ none
  succeeded : ∀ i a, s.calls.lookup i = some a → a.pc.isSucceeded →
    s.executedReqs.items.lookup a.hash ≠ none
  cleared : ∀ i a, s.calls.lookup i = some a → ∀ j b, s.calls.lookup j = some b →
    a.hash = b.hash → a.pc.isCleared → ¬ b.pc.isSucceeded
  once : Exclusive s.calls ExecPC.isSucceeded

namespace OneAtATime

variable {s s' : EnclaveServer} {id : Nat} {call call' : ExecCall}

/-- The invariant depends on the goroutines and on what the two caches hold. -/
theorem congr (inv : OneAtATime s) (calls : s'.calls = s.calls)
    (inProgress : ∀ h, s'.inProgressReqs.items.lookup h = s.inProgressReqs.items.lookup h)
    (executed : ∀ h, s'.executedReqs.items.lookup h = s.executedReqs.items.lookup h) :
    OneAtATime s' := by
  obtain ⟨held, marked, succeeded, cleared, once⟩ := inv
  refine ⟨by rwa [calls], ?_, ?_, by rwa [calls], by rwa [calls]⟩
  · rw [calls]
    intro i a found isMarked
    rw [inProgress]
    exact marked i a found isMarked
  · rw [calls]
    intro i a found isSucceeded
    rw [executed]
    exact succeeded i a found isSucceeded

/-- A move that touches neither cache and does not succeed. -/
theorem quiet (inv : OneAtATime s) (found : s.calls.lookup id = some call)
    (calls : s'.calls = s.calls.insert id call')
    (inProgress : s'.inProgressReqs = s.inProgressReqs)
    (executed : s'.executedReqs = s.executedReqs) (hash : call'.hash = call.hash)
    (held : call'.pc.isHeld → call.pc.isHeld ∨
      ∀ j b, s.calls.lookup j = some b → b.hash = call.hash → ¬ b.pc.isHeld)
    (marked : call'.pc.isMarked → call.pc.isMarked)
    (cleared : call'.pc.isCleared → call.pc.isCleared ∨
      ∀ j b, s.calls.lookup j = some b → b.hash = call.hash → ¬ b.pc.isSucceeded)
    (pending : ¬ call'.pc.isSucceeded) : OneAtATime s' where
  held := by
    rw [calls]
    exact inv.held.insert found hash held
  marked := by
    rw [calls, inProgress]
    apply forall_lookup_insert inv.marked
    intro isMarked
    rw [hash]
    exact inv.marked id call found (marked isMarked)
  succeeded := by
    rw [calls, executed]
    apply forall_lookup_insert inv.succeeded
    intro isSucceeded
    exact (pending isSucceeded).elim
  cleared := by
    rw [calls]
    apply forall_lookup_insert
    · intro i a ati
      apply forall_lookup_insert (inv.cleared i a ati)
      intro _ _ isSucceeded
      exact pending isSucceeded
    · apply forall_lookup_insert
      · intro j b atj same isCleared
        rcases cleared isCleared with already | nobody
        · exact inv.cleared id call found j b atj (hash.symm.trans same) already
        · exact nobody j b atj (same.symm.trans hash)
      · intro _ _ isSucceeded
        exact pending isSucceeded
  once := by
    rw [calls]
    exact inv.once.insert found hash fun isSucceeded => (pending isSucceeded).elim

/-- A goroutine that has passed both checks moves on, and does not succeed yet. -/
theorem proceeds (inv : OneAtATime s) (found : s.calls.lookup id = some call)
    (calls : s'.calls = s.calls.insert id call')
    (inProgress : s'.inProgressReqs = s.inProgressReqs)
    (executed : s'.executedReqs = s.executedReqs) (hash : call'.hash = call.hash)
    (cleared : call.pc.isCleared) (pending : ¬ call'.pc.isSucceeded) : OneAtATime s' := by
  have marked := ExecPC.isMarked_of_isCleared cleared
  have held := ExecPC.isHeld_of_isMarked marked
  exact inv.quiet found calls inProgress executed hash (fun _ => Or.inl held) (fun _ => marked)
    (fun _ => Or.inl cleared) pending

variable {now : Int}

/-- A hash that is not found in progress is held by no goroutine. -/
theorem not_isHeld (inv : OneAtATime s) (fresh : s.inProgressReqs.Fresh now)
    (missing : s.inProgressReqs.get now call.hash = none)
    (apart : ∀ j b, s.calls.lookup j = some b → b.hash = call.hash → ¬ b.pc.isMarking) :
    ∀ j b, s.calls.lookup j = some b → b.hash = call.hash → ¬ b.pc.isHeld := by
  intro j b atj same isHeld
  rcases Bool.or_eq_true_iff.mp isHeld with marking | marked
  · exact apart j b atj same marking
  · apply inv.marked j b atj marked
    rw [same]
    exact fresh.get_eq_none missing

/-- A hash that is not found executed has not been executed. -/
theorem not_isSucceeded (inv : OneAtATime s) (fresh : s.executedReqs.Fresh now)
    (missing : s.executedReqs.get now call.hash = none) :
    ∀ j b, s.calls.lookup j = some b → b.hash = call.hash → ¬ b.pc.isSucceeded := by
  intro j b atj same isSucceeded
  apply inv.succeeded j b atj isSucceeded
  rw [same]
  exact fresh.get_eq_none missing

theorem localMove (inv : OneAtATime s) (found : s.calls.lookup id = some call)
    (freshIn : s.inProgressReqs.Fresh now) (freshEx : s.executedReqs.Fresh now)
    (apart : call.pc.isChecking → ∀ j b, s.calls.lookup j = some b → b.hash = call.hash →
      ¬ b.pc.isMarking) {pc : ExecPC} (move : LocalMove s now call pc) :
    OneAtATime (s.setCall id { call with pc := pc }) := by
  cases move with
  | busy _ _ failed =>
      exact inv.quiet found rfl rfl rfl rfl nofun nofun nofun
        (ExecPC.not_isSucceeded_of_failed failed).2
  | notBusy at_ missing =>
      have checking : call.pc.isChecking := by rw [at_]; rfl
      have free := inv.not_isHeld freshIn missing (apart checking)
      exact inv.quiet found rfl rfl rfl rfl (fun _ => Or.inr free) nofun nofun nofun
  | replay at_ _ failed =>
      have marked : call.pc.isMarked := by rw [at_]; rfl
      have held := ExecPC.isHeld_of_isMarked marked
      exact inv.quiet found rfl rfl rfl rfl (fun _ => Or.inl held) (fun _ => marked) nofun
        (ExecPC.not_isSucceeded_of_failed failed).1
  | notReplay at_ missing =>
      have marked : call.pc.isMarked := by rw [at_]; rfl
      have held := ExecPC.isHeld_of_isMarked marked
      have fresh := inv.not_isSucceeded freshEx missing
      exact inv.quiet found rfl rfl rfl rfl (fun _ => Or.inl held) (fun _ => marked)
        (fun _ => Or.inr fresh) nofun
  | keyFound at_ _ | combined at_ =>
      have cleared : call.pc.isCleared := by rw [at_]; rfl
      exact inv.proceeds found rfl rfl rfl rfl cleared nofun
  | failed cleared failed =>
      exact inv.proceeds found rfl rfl rfl rfl cleared
        (ExecPC.not_isSucceeded_of_failed failed).1

/-- The goroutine puts its mark. -/
theorem markInProgress (inv : OneAtATime s) (found : s.calls.lookup id = some call)
    (at_ : call.pc = .markInProgress) (room : s.inProgressReqs.HasRoom call.hash) :
    OneAtATime ({ s with inProgressReqs := s.inProgressReqs.set now call.hash () none }.setCall id
      { call with pc := .checkExecuted }) where
  held := by
    have held : call.pc.isHeld := by rw [at_]; rfl
    exact inv.held.insert found rfl fun _ => Or.inl held
  marked := by
    apply forall_lookup_insert
    · intro i a ati isMarked
      dsimp only [EnclaveServer.setCall]
      rw [Cache.lookup_set room]
      split
      · simp
      · exact inv.marked i a ati isMarked
    · intro _
      dsimp only [EnclaveServer.setCall]
      rw [Cache.lookup_set room, if_pos rfl]
      simp
  succeeded := forall_lookup_insert inv.succeeded nofun
  cleared := by
    apply forall_lookup_insert
    · intro i a ati
      exact forall_lookup_insert (inv.cleared i a ati) nofun
    · intro j b _ _ isCleared
      cases isCleared
  once := inv.once.insert found rfl nofun

/-- The goroutine records the execution and has its success response. -/
theorem markExecuted (inv : OneAtATime s) (found : s.calls.lookup id = some call)
    {resp : ExecuteResponse} (at_ : call.pc = .markExecuted resp)
    (room : s.executedReqs.HasRoom call.hash) :
    OneAtATime ({ s with executedReqs := s.executedReqs.set now call.hash () none }.setCall id
      { call with pc := .unmark (.success resp) }) := by
  have cleared : call.pc.isCleared := by rw [at_]; rfl
  have marked := ExecPC.isMarked_of_isCleared cleared
  have held := ExecPC.isHeld_of_isMarked marked
  refine ⟨inv.held.insert found rfl fun _ => Or.inl held,
    forall_lookup_insert inv.marked fun _ => inv.marked id call found marked, ?_, ?_, ?_⟩
  · apply forall_lookup_insert
    · intro i a ati isSucceeded
      dsimp only [EnclaveServer.setCall]
      rw [Cache.lookup_set room]
      split
      · simp
      · exact inv.succeeded i a ati isSucceeded
    · intro _
      dsimp only [EnclaveServer.setCall]
      rw [Cache.lookup_set room, if_pos rfl]
      simp
  · intro i a ati j b atj same isCleared isSucceeded
    rcases lookup_insert_cases ati with ⟨rfl, rfl⟩ | ⟨other, oldi⟩
    · cases isCleared
    · rcases lookup_insert_cases atj with ⟨rfl, rfl⟩ | ⟨_, oldj⟩
      · -- `id` was cleared too, and only one goroutine of a hash is marked
        have heldi := ExecPC.isHeld_of_isMarked (ExecPC.isMarked_of_isCleared isCleared)
        exact other (inv.held i a oldi j call found same heldi held)
      · exact inv.cleared i a oldi j b oldj same isCleared isSucceeded
  · refine inv.once.insert found rfl fun _ => Or.inr fun j b atj same => ?_
    exact inv.cleared id call found j b atj same.symm cleared

/-- The deferred deletion. No other goroutine of the hash counts on the mark. -/
theorem unmark (inv : OneAtATime s) (found : s.calls.lookup id = some call)
    {reply : ExecuteReply} (at_ : call.pc = .unmark reply) :
    OneAtATime ({ s with inProgressReqs := s.inProgressReqs.delete call.hash }.setCall id
      { call with pc := .done reply }) := by
  have held : call.pc.isHeld := by rw [at_]; rfl
  have before : (ExecPC.done reply).isSucceeded → call.pc.isSucceeded := by
    rw [at_]
    exact ExecPC.isSucceeded_of_done
  refine ⟨inv.held.insert found rfl nofun, ?_, ?_, ?_, ?_⟩
  · intro i a ati isMarked
    rcases lookup_insert_cases ati with ⟨rfl, rfl⟩ | ⟨other, oldi⟩
    · cases isMarked
    · dsimp only [EnclaveServer.setCall]
      rw [Cache.lookup_delete, if_neg]
      · exact inv.marked i a oldi isMarked
      · intro same
        exact other (inv.held i a oldi id call found same
          (ExecPC.isHeld_of_isMarked isMarked) held)
  · exact forall_lookup_insert inv.succeeded fun isSucceeded =>
      inv.succeeded id call found (before isSucceeded)
  · apply forall_lookup_insert
    · intro i a ati
      apply forall_lookup_insert (inv.cleared i a ati)
      intro same isCleared isSucceeded
      exact inv.cleared i a ati id call found same isCleared (before isSucceeded)
    · intro j b _ _ isCleared
      cases isCleared
  · exact inv.once.insert found rfl fun isSucceeded => Or.inl (before isSucceeded)

theorem callStep (inv : OneAtATime s) (found : s.calls.lookup id = some call)
    (freshIn : s.inProgressReqs.Fresh now) (freshEx : s.executedReqs.Fresh now)
    (room : s.WithinCap call)
    (apart : call.pc.isChecking → ∀ j b, s.calls.lookup j = some b → b.hash = call.hash →
      ¬ b.pc.isMarking) (effect : CallEffect s now id call s') : OneAtATime s' := by
  cases effect with
  | localMove move => exact inv.localMove found freshIn freshEx apart move
  | markInProgress at_ =>
      exact inv.markInProgress found at_ (room.1 (by rw [at_]; rfl))
  | appReturned at_ =>
      have cleared : call.pc.isCleared := by rw [at_]; rfl
      exact inv.proceeds found rfl rfl rfl rfl cleared nofun
  | attested at_ next =>
      have cleared : call.pc.isCleared := by rw [at_]; rfl
      refine inv.proceeds found rfl rfl rfl rfl cleared ?_
      rcases next with ⟨resp, rfl⟩ | ⟨reply, failed, rfl⟩
      · exact nofun
      · exact (ExecPC.not_isSucceeded_of_failed failed).1
  | markExecuted at_ =>
      exact inv.markExecuted found at_ (room.2 (by rw [at_]; rfl))
  | unmark at_ => exact inv.unmark found at_

/-- A goroutine that has just arrived holds nothing. -/
theorem arrived (inv : OneAtATime s) (fresh : call.pc = .checkInProgress) :
    OneAtATime (s.setCall id call) := by
  have idle : ∀ stage : ExecPC → Bool, stage .checkInProgress = false → ¬ stage call.pc := by
    intro stage off on
    rw [fresh, off] at on
    cases on
  refine ⟨inv.held.insert_idle (idle _ rfl),
    forall_lookup_insert inv.marked fun isMarked => (idle _ rfl isMarked).elim,
    forall_lookup_insert inv.succeeded fun isSucceeded => (idle _ rfl isSucceeded).elim, ?_,
    inv.once.insert_idle (idle _ rfl)⟩
  apply forall_lookup_insert
  · intro i a ati
    exact forall_lookup_insert (inv.cleared i a ati) fun _ _ => idle _ rfl
  · intro j b _ _ isCleared
    exact (idle _ rfl isCleared).elim

/-- **One step keeps the invariant.** -/
theorem step {p : Platform} {l : EnclaveLabel} (inv : OneAtATime s) (kept : s.CachesKept l)
    (apart : s.ChecksApart l) (taken : s.step p l = some s') : OneAtATime s' := by
  obtain ⟨_, acted⟩ := EnclaveServer.step_eq_some taken
  obtain ⟨freshIn, freshEx, room⟩ := kept
  have inv' : OneAtATime { s with clock := l.now } := inv.congr rfl (fun _ => rfl) fun _ => rfl
  have effect := EnclaveServer.act_exec acted
  generalize action : l.action = a at effect
  cases effect with
  | same same =>
      apply inv'.congr same.calls
      · intro h
        rw [same.inProgressReqs]
      · intro h
        rw [same.executedReqs]
  | admitted _ _ => exact inv'.arrived rfl
  | @call id input call _ found effect =>
      have caller : s.caller l = some call := (EnclaveServer.caller_eq action).trans found
      exact inv'.callStep found freshIn freshEx (room call caller) (apart call caller) effect
  | keyPair => exact inv'.congr rfl (fun _ => rfl) fun _ => rfl
  | collectInProgress =>
      exact inv'.congr rfl (fun _ => freshIn.lookup_garbageCollect) fun _ => rfl
  | collectExecuted =>
      exact inv'.congr rfl (fun _ => rfl) fun _ => freshEx.lookup_garbageCollect
  | collectKeypairs => exact inv'.congr rfl (fun _ => rfl) fun _ => rfl

end OneAtATime

section

variable {p : Platform} {config : EnclaveConfig} {allowReconfig appConfigurable : Bool}
  {keychain : BoxKeychain} {start : Int} {ls : List EnclaveLabel} {s : EnclaveServer}

/-- **Mutual exclusion and at most one success.** In every run whose steps keep the caches'
entries and make their look-ups apart, at most one goroutine for each hash is inside
`app.Execute`, and at most one has a success response. -/
theorem executions_exclusive
    (run : Run (EnclaveServer.step p) (fun s l => s.CachesKept l ∧ s.ChecksApart l)
      (.newEnclaveServer config allowReconfig appConfigurable keychain start) ls s) :
    Exclusive s.calls ExecPC.isRunning ∧ Exclusive s.calls ExecPC.isSucceeded := by
  have inv : OneAtATime s := by
    refine run.invariant ⟨?_, ?_, ?_, ?_, ?_⟩ fun s l s' inv ok taken => inv.step ok.1 ok.2 taken
    all_goals
      intro i a found
      cases found
  refine ⟨fun i a ati j b atj same here there => ?_, inv.once⟩
  have held : ∀ {pc : ExecPC}, pc.isRunning → pc.isHeld := fun running =>
    ExecPC.isHeld_of_isMarked
      (ExecPC.isMarked_of_isCleared (ExecPC.isCleared_of_isKeyed
        (ExecPC.isKeyed_of_isRunning running)))
  exact inv.held i a ati j b atj same (held here) (held there)

end

section

open Sample

/-- One goroutine executes; a second one with the same hash is turned away meanwhile. -/
theorem executions_exclusive_second_refused :
    ∃ ls s, Run (EnclaveServer.step platform) (fun s l => s.CachesKept l ∧ s.ChecksApart l)
        (server 0) ls s ∧
      (∃ call, s.calls.lookup 0 = some call ∧ call.pc.isSucceeded) ∧
      (∃ call, s.calls.lookup 1 = some call ∧ call.pc.isDone) ∧
      Exclusive s.calls ExecPC.isRunning ∧ Exclusive s.calls ExecPC.isSucceeded := by
  have found : ∃ s, Run (EnclaveServer.step platform)
      (fun s l => s.CachesKept l ∧ s.ChecksApart l) (server 0)
      ([keyGenerated, arrival 0 0] ++ List.replicate 5 (proceed 0 0) ++
        [arrival 0 1, proceed 0 1] ++
        [appReturns 0 0, attestorAnswers 0 0, proceed 0 0, proceed 0 0]) s ∧
      (s.calls.lookup 0).any (fun call => call.pc.isSucceeded) ∧
      (s.calls.lookup 1).any (fun call => call.pc.isDone) := by
    apply Run.exists_of_exec
    decide +kernel
  obtain ⟨s, run, first, second⟩ := found
  exact ⟨_, s, run, (Option.any_eq_true _ _).mp first, (Option.any_eq_true _ _).mp second,
    executions_exclusive run⟩

/-- Two goroutines with the same request take their steps in turn. Both find the hash not
in progress, both are inside `app.Execute` at the same time, and both succeed. -/
theorem concurrent_executions :
    ∃ ls s ls' s', Run (EnclaveServer.step platform) EnclaveServer.CachesKept (server 0) ls s ∧
      ¬ Exclusive s.calls ExecPC.isRunning ∧
      Run (EnclaveServer.step platform) EnclaveServer.CachesKept (server 0) (ls ++ ls') s' ∧
      ¬ Exclusive s'.calls ExecPC.isSucceeded := by
  have inside : ∃ s, Run (EnclaveServer.step platform) EnclaveServer.CachesKept (server 0)
      ([keyGenerated, arrival 0 0, arrival 0 1] ++
        (List.replicate 5 [proceed 0 0, proceed 0 1]).flatten) s ∧
      ¬ Exclusive s.calls ExecPC.isRunning := by
    apply Run.exists_of_exec
    decide +kernel
  have after : ∃ s, Run (EnclaveServer.step platform) EnclaveServer.CachesKept (server 0)
      (([keyGenerated, arrival 0 0, arrival 0 1] ++
        (List.replicate 5 [proceed 0 0, proceed 0 1]).flatten) ++
        [appReturns 0 0, appReturns 0 1, attestorAnswers 0 0, attestorAnswers 0 1,
          proceed 0 0, proceed 0 1]) s ∧
      ¬ Exclusive s.calls ExecPC.isSucceeded := by
    apply Run.exists_of_exec
    decide +kernel
  obtain ⟨s, run, running⟩ := inside
  obtain ⟨s', run', succeeded⟩ := after
  exact ⟨_, s, _, s', run, running, run', succeeded⟩

end

end ConfidentialCompute
