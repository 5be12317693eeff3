import ConfidentialCompute.Lib.Progress
import ConfidentialCompute.Workflows.Executions

/-!
# Bounds on executions and compilations

What holds of the executions of the workflows app under every order of steps, while settings are
injected: the slots that are taken are those of the executions in progress, each semaphore is
held by as many executions as it counts, and its queue holds those that wait for it. With the limit
that is derived from the enclave's memory the executions fit into that memory.
-/

namespace ConfidentialCompute.Workflows

open Go Runs

variable {φ : Type} {lib : Semaphores Nat}

/-! ## What a step does -/

/-- The error of an execution whose timer fired while it compiled. -/
def timedOut : WasmError := contextDeadlineExceeded.wrap "creating wasm module"

namespace WorkflowPC

/-- The execution has not returned. -/
def active : WorkflowPC → Bool
  | .returned _ => false
  | _ => true

/-- The semaphore of which the execution holds a slot. -/
def inside : WorkflowPC → Option Nat
  | .granted _ gate => some gate
  | .compiling gate _ => some gate
  | .leaving gate _ => some gate
  | _ => none

/-- The semaphore in whose queue the execution stands. -/
def waits : WorkflowPC → Option Nat
  | .queued _ gate => some gate
  | _ => none

/-- The semaphore that the execution has loaded. -/
def loaded : WorkflowPC → Option Nat
  | .acquiring _ gate => some gate
  | .queued _ gate => some gate
  | pc => pc.inside

/-- How many steps an execution takes at most. -/
def rank : WorkflowPC → Nat
  | .validated _ => 13
  | .sleeping _ _ => 12
  | .fetching _ => 11
  | .checking _ => 10
  | .loadingTimeout => 9
  | .loadingGate _ => 8
  | .acquiring _ _ => 7
  | .queued _ _ => 6
  | .granted _ _ => 5
  | .compiling _ _ => 4
  | .leaving _ _ => 3
  | .running _ => 2
  | .returning _ => 1
  | .returned _ => 0

/-- The timer fired while the execution compiled, and the guest has not been started. -/
inductive TimedOut : WorkflowPC → Prop
  | compiling (gate : Nat) (deadline : Option Int) : TimedOut (.compiling gate ⟨deadline, true⟩)
  | leaving (gate : Nat) : TimedOut (.leaving gate (.error timedOut))
  | returning : TimedOut (.returning (.error timedOut.toWorkflowError))
  | returned : TimedOut (.returned (.error timedOut.toWorkflowError))

/-- A move in which no slot is taken or given back. That a timer fires is not urgent. -/
inductive Goes (s : ExecutionSystem lib φ) (urgent : Prop) : WorkflowPC → WorkflowPC → Prop
  | rests {execution : WorkflowExecution} {until_ : Int} :
      Goes s urgent (.validated execution) (.sleeping execution until_)
  | starts {execution : WorkflowExecution} :
      Goes s urgent (.validated execution) (.fetching execution)
  | wakes {execution : WorkflowExecution} {until_ : Int} :
      Goes s urgent (.sleeping execution until_) (.fetching execution)
  | fetched {execution : WorkflowExecution} :
      Goes s urgent (.fetching execution) (.checking execution)
  | unfetched {execution : WorkflowExecution} {result : WorkflowResult} :
      Goes s urgent (.fetching execution) (.returning result)
  | met {execution : WorkflowExecution} : Goes s urgent (.checking execution) .loadingTimeout
  | unmet {execution : WorkflowExecution} {result : WorkflowResult} :
      Goes s urgent (.checking execution) (.returning result)
  | timeout {timeout : Int} : Goes s urgent .loadingTimeout (.loadingGate timeout)
  | gate {timeout : Int} :
      Goes s urgent (.loadingGate timeout) (.acquiring timeout s.app.compileSlots.serial)
  | compiles {timeout : Int} {gate : Nat} {ctx : ExecContext} :
      Goes s urgent (.granted timeout gate) (.compiling gate ctx)
  | compiled {gate : Nat} {ctx : ExecContext} {outcome : Except WasmError ExecContext}
      (late : ctx.expired = true → outcome = .error timedOut) :
      Goes s urgent (.compiling gate ctx) (.leaving gate outcome)
  | returns {ctx : ExecContext} {result : WorkflowResult} :
      Goes s urgent (.running ctx) (.returning result)
  | lateCompiling (calm : ¬ urgent) {gate : Nat} {due : Int} :
      Goes s urgent (.compiling gate ⟨some due, false⟩) (.compiling gate ⟨some due, true⟩)
  | lateLeaving (calm : ¬ urgent) {gate : Nat} {due : Int} :
      Goes s urgent (.leaving gate (.ok ⟨some due, false⟩)) (.leaving gate (.ok ⟨some due, true⟩))
  | lateRunning (calm : ¬ urgent) {due : Int} :
      Goes s urgent (.running ⟨some due, false⟩) (.running ⟨some due, true⟩)

/-- How an execution goes on after its compilation. -/
inductive Resumes : Except WasmError ExecContext → WorkflowPC → Prop
  | fails {err : WasmError} : Resumes (.error err) (.returning (.error err.toWorkflowError))
  | runs {ctx : ExecContext} : Resumes (.ok ctx) (.running ctx)

section

variable {s : ExecutionSystem lib φ} {urgent : Prop} {pc pc' : WorkflowPC} {gate : Nat}
  {timeout : Int} {outcome : Except WasmError ExecContext}

@[simp] theorem inside_acquiring : (acquiring timeout gate).inside = none := rfl

@[simp] theorem inside_queued : (queued timeout gate).inside = none := rfl

@[simp] theorem inside_granted : (granted timeout gate).inside = some gate := rfl

@[simp] theorem inside_leaving : (leaving gate outcome).inside = some gate := rfl

@[simp] theorem waits_queued : (queued timeout gate).waits = some gate := rfl

@[simp] theorem waits_granted : (granted timeout gate).waits = none := rfl

@[simp] theorem waits_leaving : (leaving gate outcome).waits = none := rfl

theorem of_waits (waits : pc.waits = some gate) : ∃ timeout, pc = .queued timeout gate := by
  unfold WorkflowPC.waits at waits
  split at waits
  · cases waits
    exact ⟨_, rfl⟩
  · cases waits

theorem loaded_of_inside (holds : pc.inside = some gate) : pc.loaded = some gate := by
  unfold loaded
  split
  · cases holds
  · cases holds
  · exact holds

/-- Who has loaded no semaphore holds no slot and waits for none. -/
theorem outside_of_loaded (unloaded : pc.loaded = none) : pc.inside = none ∧ pc.waits = none := by
  unfold loaded at unloaded
  split at unloaded
  · cases unloaded
  · cases unloaded
  · rename_i queues
    refine ⟨unloaded, ?_⟩
    unfold WorkflowPC.waits
    split
    · exact absurd rfl (queues _ _)
    · rfl

theorem active_wake (pc : WorkflowPC) : pc.wake.active = pc.active := by
  cases pc <;> rfl

theorem rank_le (pc : WorkflowPC) : pc.rank ≤ 13 := by
  unfold rank
  split <;> decide

theorem rank_wake_le (pc : WorkflowPC) : pc.wake.rank ≤ pc.rank := by
  cases pc <;> simp [wake, rank]

theorem Goes.active (goes : pc.Goes s urgent pc') : pc.active = true ∧ pc'.active = true := by
  cases goes <;> exact ⟨rfl, rfl⟩

theorem Goes.inside (goes : pc.Goes s urgent pc') : pc'.inside = pc.inside := by
  cases goes <;> rfl

theorem Goes.waits (goes : pc.Goes s urgent pc') : pc.waits = none ∧ pc'.waits = none := by
  cases goes <;> exact ⟨rfl, rfl⟩

theorem Goes.loaded (goes : pc.Goes s urgent pc') (isGate : pc'.loaded = some gate) :
    pc.loaded = some gate ∨ gate = s.app.compileSlots.serial := by
  cases goes with
  | gate =>
      cases isGate
      exact Or.inr rfl
  | _ => exact Or.inl isGate

theorem Goes.rank_lt (goes : pc.Goes s urgent pc') (hurry : urgent) : pc'.rank < pc.rank := by
  cases goes with
  | lateCompiling calm | lateLeaving calm | lateRunning calm => exact absurd hurry calm
  | _ => simp [rank]

theorem TimedOut.goes (late : TimedOut pc) (goes : pc.Goes s urgent pc') : TimedOut pc' := by
  cases goes with
  | compiled isLate =>
      cases late
      rw [isLate rfl]
      exact .leaving _
  | _ => cases late

theorem Resumes.free (resumes : Resumes outcome pc') :
    pc'.active = true ∧ pc'.loaded = none := by
  cases resumes <;> exact ⟨rfl, rfl⟩

end

end WorkflowPC

namespace ExecutionSystem

/-- Everything a step can do. -/
inductive Effect (s : ExecutionSystem lib φ) (urgent : Prop) : ExecutionSystem lib φ → Prop
  | configured {app : WorkflowsApp φ} {injections : GoMap Nat (InjectCall φ)} (calm : ¬ urgent)
      (same : app.compileSlots = s.app.compileSlots) :
      Effect s urgent { s with app := app, injections := injections }
  | swapped {app : WorkflowsApp φ} {injections : GoMap Nat (InjectCall φ)} (calm : ¬ urgent)
      (next : app.compileSlots.serial = s.app.compileSlots.serial + 1)
      (positive : 1 ≤ app.compileSlots.size) :
      Effect s urgent { s with
        app := app
        injections := injections
        gates := s.gates ++ [lib.newWeighted app.compileSlots.size] }
  | rejected (calm : ¬ urgent) (limited : 0 < s.limit) (full : s.limit ≤ s.slots) :
      Effect s urgent { s with calls := s.calls ++ [.returned (.error atCapacity)] }
  | admitted {pc : WorkflowPC} (calm : ¬ urgent) (active : pc.active = true)
      (unloaded : pc.loaded = none) (room : 0 < s.limit → (s.slots : Int) < s.limit) :
      Effect s urgent { s with
        slots := if 0 < s.limit then s.slots + 1 else s.slots
        calls := s.calls ++ [pc] }
  | moved {id : Nat} {pc pc' : WorkflowPC} (found : s.calls[id]? = some pc)
      (goes : pc.Goes s urgent pc') : Effect s urgent (s.put id pc')
  | entered {id gate : Nat} {timeout : Int} {slot : lib.Weighted}
      (found : s.calls[id]? = some (.acquiring timeout gate)) (isSlot : s.gates[gate]? = some slot)
      (granted : (lib.acquire slot id).2 = .granted) :
      Effect s urgent ({ s with gates := s.gates.set gate (lib.acquire slot id).1 }.put id
        (.granted timeout gate))
  | queued {id gate : Nat} {timeout : Int} {slot : lib.Weighted}
      (found : s.calls[id]? = some (.acquiring timeout gate)) (isSlot : s.gates[gate]? = some slot)
      (queues : (lib.acquire slot id).2 = .queued) :
      Effect s urgent ({ s with gates := s.gates.set gate (lib.acquire slot id).1 }.put id
        (.queued timeout gate))
  | left {id gate : Nat} {outcome : Except WasmError ExecContext} {slot : lib.Weighted}
      {pc' : WorkflowPC} (found : s.calls[id]? = some (.leaving gate outcome))
      (isSlot : s.gates[gate]? = some slot) (resumes : WorkflowPC.Resumes outcome pc') :
      Effect s urgent ((s.releaseGate gate slot).put id pc')
  | ended {id : Nat} {result : WorkflowResult} (found : s.calls[id]? = some (.returning result)) :
      Effect s urgent ({ s with slots := if 0 < s.limit then s.slots - 1 else s.slots }.put id
        (.returned result))

variable {s s' : ExecutionSystem lib φ} {urgent : Prop}

/-- A step of an injection leaves the semaphore in place or puts a new one there. -/
theorem compileSlots_of_run (req : WorkflowSettings) (factories : Factories φ)
    (a : WorkflowsApp φ) (i : InjectStep) :
    (i.run req factories a).2.compileSlots = a.compileSlots ∨
      ((i.run req factories a).2.compileSlots.serial = a.compileSlots.serial + 1 ∧
        1 ≤ (i.run req factories a).2.compileSlots.size) := by
  cases i with
  | compileSlots =>
      simp only [InjectStep.run, WorkflowsApp.storeCompileSlots]
      split
      · rename_i positive
        exact Or.inr ⟨rfl, positive⟩
      · exact Or.inl rfl
  | storage =>
      simp only [InjectStep.run]
      split <;> exact Or.inl rfl
  | dispatcher =>
      simp only [InjectStep.run, WorkflowsApp.buildDispatcher]
      split
      · split <;> exact Or.inl rfl
      · exact Or.inl rfl
  | _ => exact Or.inl rfl

theorem compileSlots_of_take {call call' : InjectCall φ} {a a' : WorkflowsApp φ} {i : InjectStep}
    (taken : call.take a i = some (a', call')) :
    a'.compileSlots = a.compileSlots ∨
      (a'.compileSlots.serial = a.compileSlots.serial + 1 ∧ 1 ≤ a'.compileSlots.size) := by
  have stored := compileSlots_of_run call.req call.factories a i
  unfold InjectCall.take at taken
  split at taken
  · cases taken
  · split at taken
    · split at taken
      · rename_i isRun
        cases taken
        rw [isRun] at stored
        exact stored
      · rename_i isRun
        cases taken
        rw [isRun] at stored
        exact stored
    · cases taken

theorem effect_of_execute (calm : ¬ urgent) (appID : Bytes) (input : WorkflowInput) :
    Effect s urgent (s.execute appID input) := by
  unfold execute
  split
  · rename_i full
    exact .rejected calm full.1 full.2
  · rename_i room
    have free : 0 < s.limit → (s.slots : Int) < s.limit := fun limited =>
      Int.not_le.mp fun full => room ⟨limited, full⟩
    refine .admitted calm ?_ ?_ free <;> split <;> rfl

theorem effect_of_proceed {now : Int} {id : Nat} {pc : WorkflowPC} (found : s.calls[id]? = some pc)
    (taken : s.proceed now id pc = some s') : Effect s urgent s' := by
  cases pc with
  | validated execution =>
      simp only [proceed] at taken
      split at taken
      · cases taken
        exact .moved found .rests
      · cases taken
        exact .moved found .starts
  | sleeping execution wakes =>
      obtain ⟨_, taken⟩ := Option.ite_none_right_eq_some.mp taken
      cases taken
      exact .moved found .wakes
  | loadingTimeout =>
      cases taken
      exact .moved found .timeout
  | loadingGate timeout =>
      cases taken
      exact .moved found .gate
  | acquiring timeout gate =>
      simp only [proceed] at taken
      split at taken
      · cases taken
      · rename_i slot isSlot
        split at taken
        · rename_i slot' isNext
          cases taken
          have effect : Effect s urgent _ := .entered found isSlot (congrArg Prod.snd isNext)
          rw [isNext] at effect
          exact effect
        · rename_i slot' isNext
          cases taken
          have effect : Effect s urgent _ := .queued found isSlot (congrArg Prod.snd isNext)
          rw [isNext] at effect
          exact effect
        · cases taken
  | granted timeout gate =>
      cases taken
      exact .moved found .compiles
  | leaving gate outcome =>
      simp only [proceed] at taken
      split at taken
      · cases taken
      · rename_i slot isSlot
        cases taken
        cases outcome with
        | error err => exact .left found isSlot .fails
        | ok ctx => exact .left found isSlot .runs
  | returning result =>
      cases taken
      exact .ended found
  | fetching execution => cases taken
  | checking execution => cases taken
  | queued timeout gate => cases taken
  | compiling gate ctx => cases taken
  | running ctx => cases taken
  | returned result => cases taken

end ExecutionSystem

namespace WorkflowPC

variable {s : ExecutionSystem lib φ} {urgent : Prop} {pc pc' : WorkflowPC}

theorem goes_of_fetched {result : Except Bytes Unit} (next : pc.fetched result = some pc') :
    pc.Goes s urgent pc' := by
  unfold fetched at next
  split at next
  · split at next <;> cases next
    · exact .fetched
    · exact .unfetched
  · cases next

theorem goes_of_checked {meets : Bool} {requirements : Bytes}
    (next : pc.checked meets requirements = some pc') : pc.Goes s urgent pc' := by
  unfold checked at next
  split at next
  · split at next <;> cases next
    · exact .met
    · exact .unmet
  · cases next

theorem goes_of_expire {now : Int} (calm : ¬ urgent) (next : pc.expire now = some pc') :
    pc.Goes s urgent pc' := by
  unfold expire at next
  split at next
  · split at next <;> cases next
    exact .lateCompiling calm
  · split at next <;> cases next
    exact .lateLeaving calm
  · split at next <;> cases next
    exact .lateRunning calm
  · cases next

theorem goes_of_compiled {result : Except WasmError Unit} (next : pc.compiled result = some pc') :
    pc.Goes s urgent pc' := by
  unfold compiled at next
  split at next
  · split at next
    · cases next
      exact .compiled fun _ => rfl
    · rename_i timely
      split at next <;> cases next <;> exact .compiled fun late => absurd late timely
  · cases next

theorem goes_of_guestReturns {result : Except WasmError (Except Bytes Bytes)}
    (next : pc.guestReturns result = some pc') : pc.Goes s urgent pc' := by
  unfold guestReturns at next
  split at next
  · split at next <;> cases next <;> exact .returns
  · cases next

end WorkflowPC

namespace ExecutionSystem

variable {s s' : ExecutionSystem lib φ} {urgent : Prop} {l : ExecutionLabel φ}

/-- An execution takes a step, or what it waits for comes. -/
def moving (_ : ExecutionSystem lib φ) (l : ExecutionLabel φ) : Prop :=
  match l.action with
  | .proceed _ | .fetched _ _ | .checked _ _ _ | .compiled _ _ | .guestReturns _ _ => True
  | .inject _ _ _ | .injectStep _ _ | .execute _ _ | .expire _ => False

instance (s : ExecutionSystem lib φ) (l : ExecutionLabel φ) : Decidable (moving s l) :=
  match l with
  | ⟨_, .proceed _⟩ | ⟨_, .fetched _ _⟩ | ⟨_, .checked _ _ _⟩ | ⟨_, .compiled _ _⟩
  | ⟨_, .guestReturns _ _⟩ => isTrue trivial
  | ⟨_, .inject _ _ _⟩ | ⟨_, .injectStep _ _⟩ | ⟨_, .execute _ _⟩ | ⟨_, .expire _⟩ =>
      isFalse fun no => no

theorem effect_of_answer {id : Nat} {next : WorkflowPC → Option WorkflowPC}
    (goes : ∀ pc pc', next pc = some pc' → pc.Goes s urgent pc')
    (taken : s.answer id next = some s') : Effect s urgent s' := by
  obtain ⟨pc, found, taken⟩ := Option.bind_eq_some_iff.mp taken
  obtain ⟨pc', isNext, taken⟩ := Option.bind_eq_some_iff.mp taken
  cases taken
  exact .moved found (goes pc pc' isNext)

theorem effect_of_step (taken : step s l = some s') :
    Effect { s with clock := l.now } (moving s l) s' := by
  unfold step at taken
  split at taken
  · rcases l with ⟨now, action⟩
    cases action with
    | inject id body factories =>
        simp only [act] at taken
        split at taken
        · cases taken
        · cases taken
          unfold inject
          split
          · exact .configured (fun no => no) rfl
          · split <;> exact .configured (fun no => no) rfl
    | injectStep id i =>
        obtain ⟨call, _, taken⟩ := Option.bind_eq_some_iff.mp taken
        obtain ⟨⟨app, call'⟩, takes, taken⟩ := Option.bind_eq_some_iff.mp taken
        cases taken
        unfold withSettings
        rcases compileSlots_of_take takes with same | ⟨next, positive⟩
        · rw [if_pos same]
          exact .configured (fun no => no) same
        · rw [if_neg]
          · exact .swapped (fun no => no) next positive
          · intro same
            rw [same] at next
            omega
    | execute appID input =>
        cases taken
        exact effect_of_execute (fun no => no) appID input
    | proceed id =>
        obtain ⟨pc, found, taken⟩ := Option.bind_eq_some_iff.mp taken
        exact effect_of_proceed found taken
    | fetched id result =>
        exact effect_of_answer (fun _ _ => WorkflowPC.goes_of_fetched) taken
    | checked id meets requirements =>
        exact effect_of_answer (fun _ _ => WorkflowPC.goes_of_checked) taken
    | expire id => exact effect_of_answer (fun _ _ => WorkflowPC.goes_of_expire fun no => no) taken
    | compiled id result =>
        exact effect_of_answer (fun _ _ => WorkflowPC.goes_of_compiled) taken
    | guestReturns id result =>
        exact effect_of_answer (fun _ _ => WorkflowPC.goes_of_guestReturns) taken
  · cases taken

end ExecutionSystem

namespace Sample

/-- One compile slot and no grace period are injected. -/
def oneSlot (id : Nat) : List (ExecutionLabel Nat) :=
  let settings : WorkflowSettings :=
    { settings (ascii "00") (ascii "storage:443") (ascii "https://gateway") with
      executionTimeout := 30
      workflowGracePeriod := -1
      maxConcurrentCompilations := 1 }
  [.inject id (.settings settings) (building 0), .injectStep id .cacheBound,
    .injectStep id .httpTimeout, .injectStep id .executionTimeout, .injectStep id .compileSlots,
    .injectStep id .gracePeriod].map (⟨0, ·⟩)

/-- Two executions come to the one compile slot. -/
def contended : List (ExecutionLabel Nat) :=
  let input : WorkflowInput := .execution
    { workflowId := [1], binaryUrl := [1], binaryHash := [1], hasSdkExecuteRequest := true }
  oneSlot 0 ++ [.execute appIDConfidentialWorkflows input,
    .execute appIDConfidentialWorkflows input, .proceed 0, .fetched 0 (.ok ()),
    .checked 0 true [], .proceed 0, .proceed 0, .proceed 0, .proceed 1, .fetched 1 (.ok ()),
    .checked 1 true [], .proceed 1, .proceed 1, .proceed 1].map (⟨0, ·⟩)

def executions (limit : Int) : ExecutionSystem (.queues Nat) Nat := .init _ none limit 0

/-- Another semaphore is put in place, the first execution compiles, and the second is given its
slot. -/
def handedOver : List (ExecutionLabel Nat) :=
  oneSlot 1 ++ [⟨0, .proceed 0⟩, ⟨0, .compiled 0 (.ok ())⟩, ⟨0, .proceed 0⟩]

/-- The first execution compiles for longer than its thirty units of time. -/
def slowCompilation : List (ExecutionLabel Nat) :=
  contended ++ [⟨0, .proceed 0⟩, ⟨30, .expire 0⟩]

def slowRest : List (ExecutionLabel Nat) :=
  [⟨31, .compiled 0 (.ok ())⟩, ⟨31, .proceed 0⟩, ⟨31, .proceed 0⟩]

def contendedRest : List (ExecutionLabel Nat) :=
  [.proceed 0, .compiled 0 (.ok ()), .proceed 0, .guestReturns 0 (.ok (.ok [])), .proceed 0,
    .proceed 1, .compiled 1 (.ok ()), .proceed 1, .guestReturns 1 (.ok (.ok [])),
    .proceed 1].map (⟨0, ·⟩)

end Sample

/-! ## Slots -/

section

variable {calls : List WorkflowPC} {id : Nat} {pc pc' : WorkflowPC}

theorem countP_active_put (found : calls[id]? = some pc)
    (still : pc.active = true ∧ pc'.active = true) :
    (calls.set id pc').countP WorkflowPC.active = calls.countP WorkflowPC.active := by
  have moved := countP_set_add WorkflowPC.active pc' found
  rw [if_pos still.1, if_pos still.2] at moved
  omega

end

namespace ExecutionSystem

variable {s s' : ExecutionSystem lib φ} {urgent : Prop} {id gate : Nat} {pc pc' : WorkflowPC}
  {slot : lib.Weighted} {limit start : Int} {httpFetcher : Option Int}
  {l : ExecutionLabel φ} {ls more : List (ExecutionLabel φ)}

/-- The slots that are taken are those of the executions that have not returned. -/
def Slotted (s : ExecutionSystem lib φ) : Prop :=
  0 < s.limit → s.slots = s.calls.countP WorkflowPC.active ∧ (s.slots : Int) ≤ s.limit

/-- Waking one execution leaves those that do not wait where they are. -/
theorem getElem?_releaseGate (found : s.calls[id]? = some pc) (awake : pc.wake = pc) :
    (s.releaseGate gate slot).calls[id]? = some pc := by
  unfold releaseGate
  dsimp only
  split
  · exact found
  · rw [List.getElem?_modify, found]
    split <;> simp [awake]

theorem countP_active_releaseGate :
    (s.releaseGate gate slot).calls.countP WorkflowPC.active =
      s.calls.countP WorkflowPC.active := by
  unfold releaseGate
  dsimp only
  split
  · rfl
  · exact countP_modify WorkflowPC.active_wake _

theorem Slotted.put (slotted : s.Slotted) (found : s.calls[id]? = some pc)
    (still : pc.active = true ∧ pc'.active = true) : (s.put id pc').Slotted := by
  intro limited
  unfold ExecutionSystem.put
  dsimp only
  rw [countP_active_put found still]
  exact slotted limited

theorem Effect.slotted (effect : Effect s urgent s') (slotted : s.Slotted) : s'.Slotted := by
  cases effect with
  | configured _ _ => exact slotted
  | swapped _ _ _ => exact slotted
  | rejected _ _ _ =>
      intro limited
      obtain ⟨isCount, within⟩ := slotted limited
      refine ⟨?_, within⟩
      rw [List.countP_append, ← isCount]
      rfl
  | @admitted pc _ active _ room =>
      intro limited
      obtain ⟨isCount, within⟩ := slotted limited
      have free := room limited
      have one : [pc].countP WorkflowPC.active = 1 := by simp [active]
      dsimp only at limited ⊢
      rw [if_pos limited, List.countP_append, ← isCount, one]
      omega
  | moved found goes => exact slotted.put found goes.active
  | entered found _ _ => exact Slotted.put slotted found ⟨rfl, rfl⟩
  | queued found _ _ => exact Slotted.put slotted found ⟨rfl, rfl⟩
  | @left id gate outcome slot pc' found _ resumes =>
      refine Slotted.put (s := s.releaseGate gate slot) (fun limited => ?_)
        (getElem?_releaseGate found rfl) ⟨rfl, resumes.free.1⟩
      rw [countP_active_releaseGate]
      exact slotted limited
  | @ended id result found =>
      intro limited
      obtain ⟨isCount, within⟩ := slotted limited
      have moved := countP_set_add WorkflowPC.active (.returned result) found
      simp only [WorkflowPC.active, if_true, Bool.false_eq_true, if_false] at moved
      dsimp only [ExecutionSystem.put] at limited ⊢
      rw [if_pos limited]
      omega

theorem Effect.limit_eq (effect : Effect s urgent s') : s'.limit = s.limit := by
  cases effect <;> rfl

theorem slotted_of_run (run : Run step anyStep (init lib httpFetcher limit start) ls s) :
    s.Slotted ∧ s.limit = limit := by
  induction run with
  | nil => exact ⟨fun limited => ⟨rfl, Int.le_of_lt limited⟩, rfl⟩
  | snoc _ _ taken ih =>
      have effect := effect_of_step taken
      exact ⟨effect.slotted ih.1, effect.limit_eq.trans ih.2⟩

/-- How many executions have been admitted and have not returned. -/
def inProgress (s : ExecutionSystem lib φ) : Nat := s.calls.countP WorkflowPC.active

theorem inProgress_le (limited : 0 < limit)
    (run : Run step anyStep (init lib httpFetcher limit start) ls s) :
    s.inProgress = s.slots ∧ (s.inProgress : Int) ≤ limit := by
  obtain ⟨slotted, isLimit⟩ := slotted_of_run run
  obtain ⟨isCount, within⟩ := slotted (by rw [isLimit]; exact limited)
  unfold inProgress
  rw [← isCount, ← isLimit]
  exact ⟨rfl, within⟩

/-- **Executions are turned away exactly when all slots are taken by executions in progress.**
Whatever the executions do and however they end, no slot is lost and none is given back twice. -/
theorem executions_bounded (limited : 0 < limit)
    (run : Run step anyStep (init lib httpFetcher limit start) ls s) :
    (s.inProgress : Int) ≤ limit ∧
      ∀ (now : Int) (appID : Bytes) (input : WorkflowInput) (s' : ExecutionSystem lib φ),
        step s ⟨now, .execute appID input⟩ = some s' →
        ∃ pc, s'.calls = s.calls ++ [pc] ∧
          (pc = .returned (.error atCapacity) ↔ (s.inProgress : Int) = limit) := by
  have isLimit := (slotted_of_run run).2
  obtain ⟨isCount, within⟩ := inProgress_le limited run
  rw [isCount] at within ⊢
  refine ⟨within, fun now appID input s' taken => ?_⟩
  unfold step at taken
  split at taken
  · cases taken
    unfold execute
    split
    · rename_i full
      rw [isLimit] at full
      dsimp only at full
      exact ⟨_, rfl, iff_of_true rfl (by omega)⟩
    · rename_i room
      rw [isLimit] at room
      dsimp only at room
      refine ⟨_, rfl, iff_of_false ?_ fun full => room ⟨limited, by omega⟩⟩
      split <;> nofun
  · cases taken

theorem executions_bounded_full : ∃ s,
    Run step anyStep (Sample.executions 2) Sample.contended s ∧ s.inProgress = 2 ∧
      ((s.inProgress : Int) ≤ 2 ∧
        ∀ (now : Int) (appID : Bytes) (input : WorkflowInput) (s' : ExecutionSystem _ Nat),
          step s ⟨now, .execute appID input⟩ = some s' →
          ∃ pc, s'.calls = s.calls ++ [pc] ∧
            (pc = .returned (.error atCapacity) ↔ (s.inProgress : Int) = 2)) := by
  obtain ⟨s, run, full⟩ : ∃ s,
      Run step anyStep (Sample.executions 2) Sample.contended s ∧ s.inProgress = 2 :=
    Run.exists_of_exec (by decide +kernel)
  exact ⟨s, run, full, executions_bounded (by decide) run⟩

theorem toInt64_of_small {n : UInt64} (small : n.toNat < 2 ^ 63) : toInt64 n = n.toNat := by
  unfold toInt64
  rw [Int.bmod_eq_of_le] <;> omega

/-- The derived limit leaves the reserve alone. -/
theorem concurrency_fits {total : UInt64}
    (enough : reserveMB.toNat + perExecMB.toNat ≤ total.toNat) :
    1 ≤ concurrency total reserveMB perExecMB ∧
      concurrency total reserveMB perExecMB * perExecMB.toNat + reserveMB.toNat ≤ total.toNat := by
  have reserve : reserveMB.toNat = 1024 := rfl
  have perExec : perExecMB.toNat = 128 := rfl
  have bound := total.toNat_lt
  have fits : reserveMB ≤ total := UInt64.le_iff_toNat_le.mpr (by omega)
  have quotient : ((total - reserveMB) / perExecMB).toNat = (total.toNat - 1024) / 128 := by
    rw [UInt64.toNat_div, UInt64.toNat_sub_of_le _ _ fits, reserve, perExec]
  have small : ((total - reserveMB) / perExecMB).toNat < 2 ^ 63 := by omega
  have more : ¬ total ≤ reserveMB := by
    rw [UInt64.le_iff_toNat_le]
    omega
  unfold concurrency
  rw [if_neg (by rw [or_iff_right (by decide)]; exact more)]
  dsimp only
  rw [toInt64_of_small small, quotient, reserve, perExec, if_neg (by omega)]
  omega

/-- **The executions in progress fit into the enclave's memory**: at their full budget they leave
the reserve to the rest of the enclave, if there is room for the reserve and one execution. -/
theorem executions_fit_memory {si : Sysinfo} {total : UInt64}
    (read : totalMemoryMB (some si) = some total)
    (enough : reserveMB.toNat + perExecMB.toNat ≤ total.toNat)
    (run : Run step anyStep (init lib httpFetcher (deriveMaxConcurrent (some si)) start) ls s) :
    s.inProgress * perExecMB.toNat + reserveMB.toNat ≤ total.toNat := by
  obtain ⟨positive, fits⟩ := concurrency_fits enough
  have derived : deriveMaxConcurrent (some si) = concurrency total reserveMB perExecMB := by
    unfold deriveMaxConcurrent
    rw [read]
    refine if_neg fun nothing => ?_
    rw [nothing] at enough
    exact absurd enough (by decide)
  rw [derived] at run
  have bounded := (inProgress_le (by omega) run).2
  have perExec : perExecMB.toNat = 128 := rfl
  rw [perExec] at fits ⊢
  omega

theorem executions_fit_memory_two : ∃ s,
    Run step anyStep (Sample.executions (deriveMaxConcurrent (some ⟨1280 * 1024 * 1024, 1⟩)))
      Sample.contended s ∧ s.inProgress = 2 ∧ s.inProgress * 128 + 1024 ≤ 1280 := by
  obtain ⟨s, run, both⟩ : ∃ s,
      Run step anyStep (Sample.executions (deriveMaxConcurrent (some ⟨1280 * 1024 * 1024, 1⟩)))
        Sample.contended s ∧ s.inProgress = 2 :=
    Run.exists_of_exec (by decide +kernel)
  have read : totalMemoryMB (some ⟨1280 * 1024 * 1024, 1⟩) = some 1280 := by decide +kernel
  exact ⟨s, run, both, executions_fit_memory read (by decide +kernel) run⟩

end ExecutionSystem

/-! ## Compile slots -/

section

variable {calls : List WorkflowPC} {id gate : Nat} {pc pc' : WorkflowPC}

/-- `cur` executions hold a slot of the semaphore, and its queue holds those that wait. -/
structure Counted (calls : List WorkflowPC) (gate cur : Nat) (waiters : List Nat) : Prop where
  holders : cur = calls.countP (·.inside = some gate)
  nodup : waiters.Nodup
  waiting : ∀ id, id ∈ waiters ↔ ∃ pc, calls[id]? = some pc ∧ pc.waits = some gate

variable {cur cur' : Nat} {waiters waiters' : List Nat}

theorem Counted.put (counted : Counted calls gate cur waiters) (found : calls[id]? = some pc)
    (isCur : cur' + (if pc.inside = some gate then 1 else 0) =
      cur + (if pc'.inside = some gate then 1 else 0))
    (nodup : waiters'.Nodup) (same : ∀ j, j ≠ id → (j ∈ waiters' ↔ j ∈ waiters))
    (own : id ∈ waiters' ↔ pc'.waits = some gate) :
    Counted (calls.set id pc') gate cur' waiters' := by
  have bound := (List.getElem?_eq_some_iff.mp found).1
  refine ⟨?_, nodup, fun j => ?_⟩
  · have moved := countP_set_add (·.inside = some gate) pc' found
    have holders := counted.holders
    simp only [decide_eq_true_eq] at moved
    omega
  · by_cases isId : j = id
    · subst isId
      rw [own, List.getElem?_set_self bound]
      simp
    · rw [same j isId, counted.waiting, List.getElem?_set_ne (Ne.symm isId)]

/-- A move that has nothing to do with the semaphore. -/
theorem Counted.quiet (counted : Counted calls gate cur waiters) (found : calls[id]? = some pc)
    (inside : pc'.inside = some gate ↔ pc.inside = some gate)
    (waits : pc'.waits = some gate ↔ pc.waits = some gate) :
    Counted (calls.set id pc') gate cur waiters := by
  refine counted.put found ?_ counted.nodup (fun _ _ => Iff.rfl) ?_
  · simp only [inside]
  · rw [waits, counted.waiting]
    constructor
    · intro ⟨x, isX, has⟩
      cases found.symm.trans isX
      exact has
    · intro has
      exact ⟨pc, found, has⟩

theorem Counted.append (counted : Counted calls gate cur waiters) (outside : pc.inside = none)
    (idle : pc.waits = none) : Counted (calls ++ [pc]) gate cur waiters := by
  refine ⟨?_, counted.nodup, fun j => ?_⟩
  · rw [List.countP_append, ← counted.holders]
    simp [outside]
  · rw [counted.waiting]
    grind

end

namespace ExecutionSystem

/-- Each semaphore counts the executions that hold a slot of it and knows those that wait. The
last one is in place. -/
structure Sound (s : ExecutionSystem lib φ) : Prop where
  length : s.gates.length = s.app.compileSlots.serial + 1
  current : (s.gates[s.app.compileSlots.serial]?).map lib.size = some s.app.compileSlots.size
  known : ∀ pc ∈ s.calls, ∀ gate, pc.loaded = some gate → gate < s.gates.length
  tight : ∀ slot ∈ s.gates, lib.Tight slot
  counted : ∀ (gate : Nat) (slot : lib.Weighted), s.gates[gate]? = some slot →
    Counted s.calls gate (lib.cur slot) (lib.waiters slot)

namespace Sound

variable {s s' : ExecutionSystem lib φ} {urgent : Prop} {id gate : Nat} {pc pc' : WorkflowPC}
  {slot : lib.Weighted}

theorem init (lawful : lib.Lawful) (httpFetcher : Option Int) (limit start : Int) :
    (ExecutionSystem.init lib httpFetcher limit start : ExecutionSystem lib φ).Sound where
  length := rfl
  current := congrArg some (lawful.size_new _ (by decide))
  known _ among := by cases among
  tight slot among := by
    rw [List.mem_singleton.mp among]
    exact Semaphores.tight_new lawful (by decide)
  counted gate slot found := by
    rw [List.mem_singleton.mp (List.mem_of_getElem? found), lawful.cur_new _ (by decide),
      lawful.waiters_new _ (by decide)]
    exact ⟨rfl, List.nodup_nil, fun _ => iff_of_false nofun fun ⟨_, isPc, _⟩ => nomatch isPc⟩

theorem moved (sound : s.Sound) (found : s.calls[id]? = some pc) (goes : pc.Goes s urgent pc') :
    (s.put id pc').Sound where
  length := sound.length
  current := sound.current
  known := by
    refine forall_mem_set sound.known fun gate isGate => ?_
    rcases goes.loaded isGate with old | rfl
    · exact sound.known pc (List.mem_of_getElem? found) gate old
    · exact sound.length ▸ Nat.lt_succ_self _
  tight := sound.tight
  counted gate slot isSlot := by
    refine (sound.counted gate slot isSlot).quiet found ?_ ?_
    · rw [goes.inside]
    · rw [goes.waits.1, goes.waits.2]

/-- One semaphore has changed, and the executions with it. -/
theorem set (sound : s.Sound) {slot' : lib.Weighted} {calls : List WorkflowPC}
    (isSlot : s.gates[gate]? = some slot) (same : lib.size slot' = lib.size slot)
    (known : ∀ pc ∈ calls, ∀ gate, pc.loaded = some gate → gate < s.gates.length)
    (tight : lib.Tight slot') (own : Counted calls gate (lib.cur slot') (lib.waiters slot'))
    (others : ∀ (gate' : Nat) (x : lib.Weighted), gate' ≠ gate → s.gates[gate']? = some x →
      Counted calls gate' (lib.cur x) (lib.waiters x)) :
    ({ s with gates := s.gates.set gate slot', calls := calls } : ExecutionSystem lib φ).Sound := by
  have bound := (List.getElem?_eq_some_iff.mp isSlot).1
  refine ⟨?_, ?_, ?_, forall_mem_set sound.tight tight, fun gate' x found => ?_⟩
  · exact (List.length_set ..).trans sound.length
  · dsimp only
    rw [← sound.current, List.getElem?_set]
    split
    · rename_i isGate
      rw [← isGate, isSlot]
      exact congrArg some same
    · rfl
  · dsimp only
    rw [List.length_set]
    exact known
  · dsimp only at found
    by_cases isGate : gate' = gate
    · subst isGate
      rw [List.getElem?_set_self bound] at found
      cases found
      exact own
    · rw [List.getElem?_set_ne (Ne.symm isGate)] at found
      exact others gate' x isGate found

/-- An execution has asked for a slot of the semaphore, which counts it as it should. -/
theorem acquired (lawful : lib.Lawful) (sound : s.Sound) {timeout : Int}
    (found : s.calls[id]? = some (.acquiring timeout gate)) (isSlot : s.gates[gate]? = some slot)
    (loaded : pc'.loaded = some gate)
    (own : Counted (s.calls.set id pc') gate (lib.cur (lib.acquire slot id).1)
      (lib.waiters (lib.acquire slot id).1))
    (others : ∀ gate', gate' ≠ gate → pc'.inside ≠ some gate' ∧ pc'.waits ≠ some gate') :
    ({ s with gates := s.gates.set gate (lib.acquire slot id).1 }.put id pc').Sound := by
  have tight := sound.tight slot (List.mem_of_getElem? isSlot)
  refine sound.set isSlot (lawful.size_acquire slot id) ?_ (tight.acquire lawful) own
    fun gate' x other isX => ?_
  · refine forall_mem_set sound.known fun gate' isGate => ?_
    cases loaded.symm.trans isGate
    exact (List.getElem?_eq_some_iff.mp isSlot).1
  · obtain ⟨outside, idle⟩ := others gate' other
    exact (sound.counted gate' x isX).quiet found (iff_of_false outside nofun)
      (iff_of_false idle nofun)

theorem entered (lawful : lib.Lawful) (sound : s.Sound) {timeout : Int}
    (found : s.calls[id]? = some (.acquiring timeout gate)) (isSlot : s.gates[gate]? = some slot)
    (granted : (lib.acquire slot id).2 = .granted) :
    ({ s with gates := s.gates.set gate (lib.acquire slot id).1 }.put id
      (.granted timeout gate)).Sound := by
  refine sound.acquired lawful found isSlot rfl ?_ fun gate' other =>
    ⟨fun isGate => other (Option.some.inj isGate).symm, nofun⟩
  have counted := sound.counted gate slot isSlot
  have acquires := lawful.acquire slot id (sound.tight slot (List.mem_of_getElem? isSlot))
  generalize lib.acquire slot id = next at acquires granted
  cases acquires with
  | granted _ isCur nobody nobody' =>
      dsimp only
      rw [nobody', isCur]
      refine counted.put found ?_ List.nodup_nil (fun _ _ => by rw [nobody]) ?_
      · simp
      · simp
  | queued _ _ _ => cases granted

theorem queued (lawful : lib.Lawful) (sound : s.Sound) {timeout : Int}
    (found : s.calls[id]? = some (.acquiring timeout gate)) (isSlot : s.gates[gate]? = some slot)
    (queues : (lib.acquire slot id).2 = .queued) :
    ({ s with gates := s.gates.set gate (lib.acquire slot id).1 }.put id
      (.queued timeout gate)).Sound := by
  refine sound.acquired lawful found isSlot rfl ?_ fun gate' other =>
    ⟨nofun, fun isGate => other (Option.some.inj isGate).symm⟩
  have counted := sound.counted gate slot isSlot
  have absent : id ∉ lib.waiters slot := by
    intro among
    obtain ⟨x, isX, waits⟩ := (counted.waiting id).mp among
    cases found.symm.trans isX
    cases waits
  have acquires := lawful.acquire slot id (sound.tight slot (List.mem_of_getElem? isSlot))
  generalize lib.acquire slot id = next at acquires queues
  cases acquires with
  | granted _ _ _ _ => cases queues
  | queued _ isCur isQueue =>
      refine counted.put found (by rw [isCur]; rfl) ?_ (fun j ne => ?_) ?_
      · exact isQueue.nodup_iff.mpr (List.nodup_cons.mpr ⟨absent, counted.nodup⟩)
      · rw [isQueue.mem_iff, List.mem_cons, or_iff_right ne]
      · rw [isQueue.mem_iff]
        simp

/-- Who leaves holds a slot. -/
theorem cur_pos (sound : s.Sound) {outcome : Except WasmError ExecContext}
    (found : s.calls[id]? = some (.leaving gate outcome)) (isSlot : s.gates[gate]? = some slot) :
    0 < lib.cur slot := by
  rw [(sound.counted gate slot isSlot).holders]
  exact List.countP_pos_iff.mpr ⟨_, List.mem_of_getElem? found, by simp⟩

/-- What is so after one that waits has been woken, before the slot is given back. -/
theorem wakes (lawful : lib.Lawful) (sound : s.Sound) {outcome : Except WasmError ExecContext}
    (found : s.calls[id]? = some (.leaving gate outcome)) (isSlot : s.gates[gate]? = some slot) :
    (∀ pc ∈ (s.releaseGate gate slot).calls, ∀ gate, pc.loaded = some gate →
        gate < s.gates.length) ∧
      Counted (s.releaseGate gate slot).calls gate (lib.cur (lib.release slot).1 + 1)
        (lib.waiters (lib.release slot).1) ∧
      ∀ (gate' : Nat) (x : lib.Weighted), gate' ≠ gate → s.gates[gate']? = some x →
        Counted (s.releaseGate gate slot).calls gate' (lib.cur x) (lib.waiters x) := by
  have counted := sound.counted gate slot isSlot
  have releases := lawful.release slot (sound.tight slot (List.mem_of_getElem? isSlot))
    (sound.cur_pos found isSlot)
  unfold releaseGate
  generalize lib.release slot = next at releases
  cases releases with
  | freed isCur nobody nobody' =>
      dsimp only
      rw [nobody', isCur, ← nobody]
      exact ⟨sound.known, counted, fun gate' x _ => sound.counted gate' x⟩
  | @handed slot' p isCur isQueue =>
      obtain ⟨x, isX, waits⟩ :=
        (counted.waiting p).mp (isQueue.mem_iff.mpr List.mem_cons_self)
      obtain ⟨timeout, rfl⟩ := WorkflowPC.of_waits waits
      have woken : s.calls.modify p WorkflowPC.wake = s.calls.set p (.granted timeout gate) := by
        rw [List.modify_eq_set_getElem?, isX]
        rfl
      obtain ⟨notAgain, nodup⟩ := List.nodup_cons.mp (isQueue.nodup_iff.mp counted.nodup)
      dsimp only
      rw [woken, isCur]
      refine ⟨?_, ?_, fun gate' x other isX' => ?_⟩
      · refine forall_mem_set sound.known fun gate' isGate => ?_
        cases isGate
        exact (List.getElem?_eq_some_iff.mp isSlot).1
      · refine counted.put isX (by simp) nodup (fun j other => ?_) ?_
        · rw [isQueue.mem_iff, List.mem_cons, or_iff_right other]
        · exact iff_of_false notAgain nofun
      · refine (sound.counted gate' x isX').quiet isX ?_ ?_
        · simp [Ne.symm other]
        · simp [Ne.symm other]

/-- A slot that is given back goes to one that waits, if there is one. -/
theorem left (lawful : lib.Lawful) (sound : s.Sound) {outcome : Except WasmError ExecContext}
    (found : s.calls[id]? = some (.leaving gate outcome)) (isSlot : s.gates[gate]? = some slot)
    (resumes : WorkflowPC.Resumes outcome pc') :
    ((s.releaseGate gate slot).put id pc').Sound := by
  have unloaded := resumes.free.2
  have tight := sound.tight slot (List.mem_of_getElem? isSlot)
  have out := sound.cur_pos found isSlot
  obtain ⟨outside, idle⟩ := WorkflowPC.outside_of_loaded unloaded
  obtain ⟨known, own, others⟩ := sound.wakes lawful found isSlot
  have found' : (s.releaseGate gate slot).calls[id]? = some (.leaving gate outcome) :=
    getElem?_releaseGate found rfl
  refine sound.set isSlot (lawful.size_release slot) ?_ (tight.release lawful out) ?_
    fun gate' x other isX => ?_
  · refine forall_mem_set known fun gate' isGate => ?_
    cases unloaded.symm.trans isGate
  · refine own.put found' ?_ own.nodup (fun _ _ => Iff.rfl) ?_
    · simp [outside]
    · rw [own.waiting, idle]
      refine iff_of_false (fun ⟨x, isX, waits⟩ => ?_) nofun
      cases found'.symm.trans isX
      cases waits
  · refine (others gate' x other isX).quiet found' ?_ ?_
    · simp [outside, Ne.symm other]
    · simp [idle]

theorem ended (sound : s.Sound) {result : WorkflowResult} {slots : Nat}
    (found : s.calls[id]? = some (.returning result)) :
    ({ s with slots := slots }.put id (.returned result)).Sound := by
  refine ⟨sound.length, sound.current, ?_, sound.tight, fun gate slot isSlot => ?_⟩
  · exact forall_mem_set sound.known fun gate isGate => by cases isGate
  · exact (sound.counted gate slot isSlot).quiet found Iff.rfl Iff.rfl

theorem arrived (sound : s.Sound) (unloaded : pc.loaded = none) {slots : Nat} :
    ({ s with slots := slots, calls := s.calls ++ [pc] } : ExecutionSystem lib φ).Sound := by
  obtain ⟨outside, idle⟩ := WorkflowPC.outside_of_loaded unloaded
  refine ⟨sound.length, sound.current, fun x among => ?_, sound.tight,
    fun gate slot isSlot => ?_⟩
  · rcases List.mem_append.mp among with old | new
    · exact sound.known x old
    · rw [List.mem_singleton.mp new, unloaded]
      exact fun _ isGate => by cases isGate
  · exact (sound.counted gate slot isSlot).append outside idle

theorem swapped (lawful : lib.Lawful) (sound : s.Sound) {app : WorkflowsApp φ}
    {injections : GoMap Nat (InjectCall φ)}
    (serial : app.compileSlots.serial = s.app.compileSlots.serial + 1)
    (positive : 1 ≤ app.compileSlots.size) :
    ({ s with
      app := app
      injections := injections
      gates := s.gates ++ [lib.newWeighted app.compileSlots.size] } :
        ExecutionSystem lib φ).Sound := by
  have length := sound.length
  refine ⟨?_, ?_, fun pc among gate isGate => ?_, fun slot among => ?_, fun gate slot isSlot => ?_⟩
  · dsimp only
    rw [List.length_append, List.length_singleton]
    omega
  · dsimp only
    rw [serial, ← length, List.getElem?_concat_length]
    exact congrArg some (lawful.size_new _ positive)
  · have := sound.known pc among gate isGate
    dsimp only
    rw [List.length_append]
    omega
  · rcases List.mem_append.mp among with old | new
    · exact sound.tight slot old
    · rw [List.mem_singleton.mp new]
      exact Semaphores.tight_new lawful positive
  · dsimp only at isSlot
    rw [List.getElem?_append] at isSlot
    split at isSlot
    · exact sound.counted gate slot isSlot
    · rename_i new
      -- Nobody has loaded a semaphore that was not there.
      have nobody (pc : WorkflowPC) (among : pc ∈ s.calls) : pc.loaded ≠ some gate := fun isGate =>
        new (sound.known pc among gate isGate)
      rw [List.mem_singleton.mp (List.mem_of_getElem? isSlot), lawful.cur_new _ positive,
        lawful.waiters_new _ positive]
      refine ⟨?_, List.nodup_nil, fun id => ?_⟩
      · refine (List.countP_eq_zero.mpr fun pc among inside => ?_).symm
        exact nobody pc among (WorkflowPC.loaded_of_inside (of_decide_eq_true inside))
      · refine iff_of_false List.not_mem_nil fun ⟨pc, isPc, waits⟩ => ?_
        obtain ⟨timeout, rfl⟩ := WorkflowPC.of_waits waits
        exact nobody _ (List.mem_of_getElem? isPc) rfl

theorem effect (lawful : lib.Lawful) (sound : s.Sound) (effect : Effect s urgent s') :
    s'.Sound := by
  cases effect with
  | configured _ same =>
      refine ⟨?_, ?_, sound.known, sound.tight, sound.counted⟩
      · dsimp only
        rw [same]
        exact sound.length
      · dsimp only
        rw [same]
        exact sound.current
  | swapped _ serial positive => exact sound.swapped lawful serial positive
  | rejected _ _ _ => exact sound.arrived rfl
  | admitted _ _ unloaded _ => exact sound.arrived unloaded
  | moved found goes => exact sound.moved found goes
  | entered found isSlot granted => exact sound.entered lawful found isSlot granted
  | queued found isSlot queues => exact sound.queued lawful found isSlot queues
  | left found isSlot resumes => exact sound.left lawful found isSlot resumes
  | ended found => exact sound.ended found

theorem step (lawful : lib.Lawful) (sound : s.Sound) {l : ExecutionLabel φ}
    (taken : ExecutionSystem.step s l = some s') : s'.Sound := by
  refine Sound.effect lawful ?_ (effect_of_step taken)
  exact ⟨sound.length, sound.current, sound.known, sound.tight, sound.counted⟩

end Sound

variable {s s' : ExecutionSystem lib φ} {urgent : Prop} {id gate : Nat} {pc pc' : WorkflowPC}
  {slot : lib.Weighted} {limit start : Int} {httpFetcher : Option Int}
  {l : ExecutionLabel φ} {ls more : List (ExecutionLabel φ)}

theorem sound_of_run (lawful : lib.Lawful)
    (run : Run step anyStep (init lib httpFetcher limit start) ls s) : s.Sound :=
  run.invariant (Sound.init lawful httpFetcher limit start) fun _ _ _ sound _ taken =>
    sound.step lawful taken

end ExecutionSystem

/-! ## One execution -/

namespace WorkflowPC

/-- What a step, its own or that of another, can do to an execution. -/
inductive Next (s : ExecutionSystem lib φ) (urgent : Prop) : WorkflowPC → WorkflowPC → Prop
  | goes {pc pc' : WorkflowPC} (goes : pc.Goes s urgent pc') : Next s urgent pc pc'
  | entered {timeout : Int} {gate : Nat} :
      Next s urgent (.acquiring timeout gate) (.granted timeout gate)
  | queued {timeout : Int} {gate : Nat} :
      Next s urgent (.acquiring timeout gate) (.queued timeout gate)
  | woken {timeout : Int} {gate : Nat} :
      Next s urgent (.queued timeout gate) (.granted timeout gate)
  | left {gate : Nat} {outcome : Except WasmError ExecContext} {pc' : WorkflowPC}
      (resumes : Resumes outcome pc') : Next s urgent (.leaving gate outcome) pc'
  | ended {result : WorkflowResult} : Next s urgent (.returning result) (.returned result)

/-- The execution has loaded the semaphore, or is done with it. -/
inductive KeepsTo (gate : Nat) : WorkflowPC → Prop
  | loaded {pc : WorkflowPC} (isGate : pc.loaded = some gate) : KeepsTo gate pc
  | running {ctx : ExecContext} : KeepsTo gate (.running ctx)
  | returning {result : WorkflowResult} : KeepsTo gate (.returning result)
  | returned {result : WorkflowResult} : KeepsTo gate (.returned result)

variable {s : ExecutionSystem lib φ} {urgent : Prop} {pc pc' : WorkflowPC} {gate gate' : Nat}

theorem next_wake (pc : WorkflowPC) : pc.wake = pc ∨ pc.Next s urgent pc.wake := by
  cases pc with
  | queued timeout gate => exact Or.inr .woken
  | _ => exact Or.inl rfl

theorem TimedOut.next (late : TimedOut pc) (next : pc.Next s urgent pc') : TimedOut pc' := by
  cases next with
  | goes goes => exact late.goes goes
  | left resumes =>
      cases late
      cases resumes
      exact .returning
  | ended =>
      cases late
      exact .returned
  | entered | queued | woken => cases late

theorem KeepsTo.goes (keeps : KeepsTo gate pc) (goes : pc.Goes s urgent pc') :
    KeepsTo gate pc' := by
  cases goes with
  | compiles | compiled _ | lateCompiling _ | lateLeaving _ =>
      cases keeps with
      | loaded isGate => exact .loaded isGate
  | returns => exact .returning
  | lateRunning _ => exact .running
  | _ =>
      cases keeps with
      | loaded isGate => cases isGate

theorem KeepsTo.next (keeps : KeepsTo gate pc) (next : pc.Next s urgent pc') :
    KeepsTo gate pc' := by
  cases next with
  | goes goes => exact keeps.goes goes
  | entered | queued | woken =>
      cases keeps with
      | loaded isGate => exact .loaded isGate
  | left resumes =>
      cases resumes with
      | fails => exact .returning
      | runs => exact .running
  | ended => exact .returned

theorem KeepsTo.unique (keeps : KeepsTo gate pc) (isGate : pc.loaded = some gate') :
    gate' = gate := by
  cases keeps with
  | loaded isGate' => exact Option.some.inj (isGate.symm.trans isGate')
  | running | returning | returned => cases isGate

end WorkflowPC

namespace ExecutionSystem

variable {s s' : ExecutionSystem lib φ} {urgent : Prop} {id gate : Nat} {pc pc' : WorkflowPC}
  {slot : lib.Weighted} {limit start : Int} {httpFetcher : Option Int}
  {l : ExecutionLabel φ} {ls more : List (ExecutionLabel φ)}

theorem Effect.next (effect : Effect s urgent s') (found : s.calls[id]? = some pc) :
    ∃ pc', s'.calls[id]? = some pc' ∧ (pc' = pc ∨ pc.Next s urgent pc') := by
  have stays : ∃ pc', s.calls[id]? = some pc' ∧ (pc' = pc ∨ pc.Next s urgent pc') :=
    ⟨pc, found, Or.inl rfl⟩
  have arrived (new : WorkflowPC) :
      ∃ pc', (s.calls ++ [new])[id]? = some pc' ∧ (pc' = pc ∨ pc.Next s urgent pc') := by
    rw [List.getElem?_append_left (List.getElem?_eq_some_iff.mp found).1]
    exact stays
  -- One execution moves, after the others may have been woken.
  have set {calls : List WorkflowPC} {j : Nat} {x x' : WorkflowPC} (isX : s.calls[j]? = some x)
      (next : x.Next s urgent x')
      (others : ∃ pc', calls[id]? = some pc' ∧ (pc' = pc ∨ pc.Next s urgent pc')) :
      ∃ pc', (calls.set j x')[id]? = some pc' ∧ (pc' = pc ∨ pc.Next s urgent pc') := by
    obtain ⟨pc', found', goes⟩ := others
    by_cases same : j = id
    · subst same
      cases isX.symm.trans found
      exact ⟨x', List.getElem?_set_self (List.getElem?_eq_some_iff.mp found').1, Or.inr next⟩
    · exact ⟨pc', (List.getElem?_set_ne same).trans found', goes⟩
  cases effect with
  | configured _ _ => exact stays
  | swapped _ _ _ => exact stays
  | rejected _ _ _ => exact arrived _
  | admitted _ _ _ _ => exact arrived _
  | moved isX goes => exact set isX (.goes goes) stays
  | entered isX _ _ => exact set isX .entered stays
  | queued isX _ _ => exact set isX .queued stays
  | left isX _ resumes =>
      refine set isX (.left resumes) ?_
      unfold releaseGate
      dsimp only
      split
      · exact stays
      · rw [List.getElem?_modify, found]
        split
        · exact ⟨pc.wake, rfl, WorkflowPC.next_wake pc⟩
        · exact ⟨pc, rfl, Or.inl rfl⟩
  | ended isX => exact set isX .ended stays

/-- **One-execution rule.** What no step of an execution breaks holds of it from then on. -/
theorem holds_of_run {P : WorkflowPC → Prop} (run : Run step anyStep s ls s')
    (keeps : ∀ (t : ExecutionSystem lib φ) urgent pc pc', P pc → pc.Next t urgent pc' → P pc')
    (found : s.calls[id]? = some pc) (holds : P pc) : ∃ pc', s'.calls[id]? = some pc' ∧ P pc' := by
  induction run with
  | nil => exact ⟨pc, found, holds⟩
  | snoc _ _ taken ih =>
      obtain ⟨x, isX, holds⟩ := ih
      obtain ⟨y, isY, same | next⟩ := (effect_of_step taken).next isX
      · exact ⟨y, isY, same ▸ holds⟩
      · exact ⟨y, isY, keeps _ _ x y holds next⟩

/-- **Compile slots are bounded and kept busy**, for every semaphore that the settings have ever put
in place: no more executions hold a slot of it than it has, and nobody waits for it while a slot is
free. The one in place has the size that the settings say. An execution that has loaded one never
has another, whatever is put in place afterwards. -/
theorem compilations_bounded (lawful : lib.Lawful)
    (run : Run step anyStep (init lib httpFetcher limit start) ls s)
    (isSlot : s.gates[gate]? = some slot) :
    (s.calls.countP (·.inside = some gate) : Int) ≤ lib.size slot ∧
      ((∃ pc ∈ s.calls, pc.waits = some gate) →
        (s.calls.countP (·.inside = some gate) : Int) = lib.size slot) ∧
      (gate = s.app.compileSlots.serial → lib.size slot = s.app.compileSlots.size) ∧
      ∀ (id : Nat) (pc : WorkflowPC), s.calls[id]? = some pc → pc.loaded = some gate →
        ∀ (more : List (ExecutionLabel φ)) (s' : ExecutionSystem lib φ),
          Run step anyStep s more s' →
          ∃ pc', s'.calls[id]? = some pc' ∧ ∀ gate', pc'.loaded = some gate' → gate' = gate := by
  have sound := sound_of_run lawful run
  have tight := sound.tight slot (List.mem_of_getElem? isSlot)
  have counted := sound.counted gate slot isSlot
  rw [← counted.holders]
  refine ⟨tight.within, ?_, fun isCurrent => ?_, fun id pc found isGate more s' later => ?_⟩
  · intro ⟨pc, among, waits⟩
    obtain ⟨id, found⟩ := List.mem_iff_getElem?.mp among
    exact tight.busy (List.ne_nil_of_mem ((counted.waiting id).mpr ⟨pc, found, waits⟩))
  · have current := sound.current
    rw [← isCurrent, isSlot] at current
    exact Option.some.inj current
  · obtain ⟨pc', found', keeps⟩ := holds_of_run later
      (fun _ _ _ _ keeps next => WorkflowPC.KeepsTo.next keeps next) found (.loaded isGate)
    exact ⟨pc', found', fun gate' isGate' => keeps.unique isGate'⟩

theorem compilations_bounded_swapped : ∃ s s',
    Run step anyStep (Sample.executions 2) Sample.contended s ∧ s.gates[1]? = some ⟨1, 1, [1]⟩ ∧
      s.calls.countP (·.inside = some 1) = 1 ∧ Run step anyStep s Sample.handedOver s' ∧
      s'.app.compileSlots.serial = 2 ∧
      ∃ pc, s'.calls[1]? = some pc ∧ ∀ gate, pc.loaded = some gate → gate = 1 := by
  obtain ⟨s, run, isSlot, isQueued, more⟩ : ∃ s,
      Run step anyStep (Sample.executions 2) Sample.contended s ∧
        s.gates[1]? = some ⟨1, 1, [1]⟩ ∧ s.calls[1]? = some (.queued 30 1) ∧
        (exec step anyStep s Sample.handedOver).any (·.app.compileSlots.serial = 2) = true :=
    Run.exists_of_exec (by decide +kernel)
  obtain ⟨s', later, serial⟩ := Run.exists_of_exec more
  obtain ⟨_, busy, _, keeps⟩ := compilations_bounded (Semaphores.queues_lawful Nat) run isSlot
  have full := busy ⟨_, List.mem_of_getElem? isQueued, rfl⟩
  exact ⟨s, s', run, isSlot, Int.ofNat.inj full, later, serial,
    keeps 1 _ isQueued rfl _ s' later⟩

/-! ## A timer that fires during the compilation -/

/-- **A guest is never started when its timer fired during the compilation.** From any state in
which that has happened, the execution returns 504 with the text by which timeouts are told, if it
returns, whatever the compiler returned. -/
theorem timed_out_never_runs {deadline : Option Int}
    (late : s.calls[id]? = some (.compiling gate ⟨deadline, true⟩))
    (run : Run step anyStep s ls s') :
    (∃ pc, s'.calls[id]? = some pc ∧ ∀ ctx, pc ≠ .running ctx) ∧
      ∀ result, s'.calls[id]? = some (.returned result) →
        ∃ err, result = .error err ∧ err.code = statusGatewayTimeout ∧
          contains err.error errWasmExecutionTimeout = true := by
  obtain ⟨y, isY, late⟩ := holds_of_run run
    (fun _ _ _ _ late next => WorkflowPC.TimedOut.next late next) late (.compiling gate deadline)
  refine ⟨⟨y, isY, fun ctx isRunning => ?_⟩, fun result isResult => ?_⟩
  · subst isRunning
    cases late
  · cases isY.symm.trans isResult
    cases late
    exact ⟨_, rfl, rfl, by decide +kernel⟩

theorem timed_out_never_runs_compiled : ∃ s s' err,
    Run step anyStep (Sample.executions 2) Sample.slowCompilation s ∧
      s.calls[0]? = some (.compiling 1 ⟨some 30, true⟩) ∧ Run step anyStep s Sample.slowRest s' ∧
      s'.calls[0]? = some (.returned (.error err)) ∧ err.code = statusGatewayTimeout := by
  obtain ⟨s, run, late, more⟩ : ∃ s,
      Run step anyStep (Sample.executions 2) Sample.slowCompilation s ∧
        s.calls[0]? = some (.compiling 1 ⟨some 30, true⟩) ∧
        (exec step anyStep s Sample.slowRest).any
          (·.calls[0]? = some (.returned (.error timedOut.toWorkflowError))) = true :=
    Run.exists_of_exec (by decide +kernel)
  obtain ⟨s', rest, done⟩ := Run.exists_of_exec more
  obtain ⟨err, isErr, code, _⟩ := (timed_out_never_runs late rest).2 _ done
  cases isErr
  exact ⟨s, s', _, run, late, rest, done, code⟩

/-! ## Every execution returns -/

variable {slot : lib.Weighted}

theorem work_releaseGate_le :
    work WorkflowPC.rank (s.releaseGate gate slot).calls ≤ work WorkflowPC.rank s.calls := by
  unfold releaseGate
  dsimp only
  split
  · exact Nat.le_refl _
  · exact work_modify_le WorkflowPC.rank WorkflowPC.rank_wake_le _

theorem Effect.work_lt {urgent : Prop} (effect : Effect s urgent s') (hurry : urgent) :
    work WorkflowPC.rank s'.calls < work WorkflowPC.rank s.calls := by
  cases effect with
  | configured calm _ => exact absurd hurry calm
  | swapped calm _ _ => exact absurd hurry calm
  | rejected calm _ _ => exact absurd hurry calm
  | admitted calm _ _ _ => exact absurd hurry calm
  | moved found goes => exact work_set_lt _ found (goes.rank_lt hurry)
  | entered found _ _ => exact work_set_lt _ found (by simp [WorkflowPC.rank])
  | queued found _ _ => exact work_set_lt _ found (by simp [WorkflowPC.rank])
  | @left j gate outcome slot pc' found isSlot resumes =>
      refine Nat.lt_of_lt_of_le (work_set_lt _ (getElem?_releaseGate found rfl) ?_)
        work_releaseGate_le
      cases resumes <;> simp [WorkflowPC.rank]
  | ended found => exact work_set_lt _ found (by simp [WorkflowPC.rank])

theorem work_lt_of_moving (s : ExecutionSystem lib φ) (l : ExecutionLabel φ)
    (s' : ExecutionSystem lib φ) (allowed : moving s l) (taken : step s l = some s') :
    work WorkflowPC.rank s'.calls < work WorkflowPC.rank s.calls :=
  (effect_of_step taken).work_lt allowed

/-- Everyone but an execution in a queue can take a step. -/
theorem enabled_of_ready (lawful : lib.Lawful) (sound : s.Sound) (found : s.calls[id]? = some pc)
    (active : pc.active = true) (ready : pc.waits = none) :
    ∃ l s', moving s l ∧ step s l = some s' := by
  have known (gate : Nat) (isGate : pc.loaded = some gate) : ∃ slot, s.gates[gate]? = some slot :=
    ⟨_, List.getElem?_eq_getElem (sound.known pc (List.mem_of_getElem? found) gate isGate)⟩
  cases pc with
  | validated execution =>
      refine ⟨⟨s.clock, .proceed id⟩, ?_⟩
      by_cases grace : 0 < s.app.gracePeriod <;>
        simp [moving, step, act, proceed, found, grace]
  | sleeping execution wakes =>
      refine ⟨⟨max s.clock wakes, .proceed id⟩, ?_⟩
      simp [moving, step, act, proceed, found]
  | fetching execution =>
      refine ⟨⟨s.clock, .fetched id (.ok ())⟩, ?_⟩
      simp [moving, step, act, answer, found, WorkflowPC.fetched]
  | checking execution =>
      refine ⟨⟨s.clock, .checked id true []⟩, ?_⟩
      simp [moving, step, act, answer, found, WorkflowPC.checked]
  | loadingTimeout | loadingGate timeout | granted timeout gate | returning result =>
      refine ⟨⟨s.clock, .proceed id⟩, ?_⟩
      simp [moving, step, act, proceed, found]
  | acquiring timeout gate =>
      obtain ⟨slot, isSlot⟩ := known gate rfl
      have acquires := lawful.acquire slot id (sound.tight slot (List.mem_of_getElem? isSlot))
      refine ⟨⟨s.clock, .proceed id⟩, ?_⟩
      rcases isNext : lib.acquire slot id with ⟨slot', grant⟩
      rw [isNext] at acquires
      cases acquires <;> simp [moving, step, act, proceed, found, isSlot, isNext]
  | compiling gate ctx =>
      refine ⟨⟨s.clock, .compiled id (.ok ())⟩, ?_⟩
      by_cases expired : ctx.expired = true <;>
        simp [moving, step, act, answer, found, WorkflowPC.compiled, expired]
  | leaving gate outcome =>
      obtain ⟨slot, isSlot⟩ := known gate rfl
      refine ⟨⟨s.clock, .proceed id⟩, ?_⟩
      simp [moving, step, act, proceed, found, isSlot]
  | running ctx =>
      refine ⟨⟨s.clock, .guestReturns id (.ok (.ok []))⟩, ?_⟩
      simp [moving, step, act, answer, found, WorkflowPC.guestReturns]
  | queued timeout gate => cases ready
  | returned result => cases active

/-- Who stands in a queue waits for one that can take a step. -/
theorem enabled (lawful : lib.Lawful) (sound : s.Sound) (found : s.calls[id]? = some pc)
    (active : pc.active = true) : ∃ l s', moving s l ∧ step s l = some s' := by
  cases waits : pc.waits with
  | none => exact enabled_of_ready lawful sound found active waits
  | some gate =>
      obtain ⟨timeout, rfl⟩ := WorkflowPC.of_waits waits
      have known := sound.known _ (List.mem_of_getElem? found) gate rfl
      have isSlot := List.getElem?_eq_getElem known
      have tight := sound.tight _ (List.mem_of_getElem? isSlot)
      have counted := sound.counted gate _ isSlot
      have among := (counted.waiting id).mpr ⟨_, found, rfl⟩
      have busy := tight.busy (List.ne_nil_of_mem among)
      have positive := tight.positive
      have holders := counted.holders
      obtain ⟨holder, isHolder, holds⟩ : ∃ holder ∈ s.calls, holder.inside = some gate := by
        have some_ : 0 < s.calls.countP (·.inside = some gate) := by omega
        obtain ⟨holder, isHolder, holds⟩ := List.countP_pos_iff.mp some_
        exact ⟨holder, isHolder, of_decide_eq_true holds⟩
      obtain ⟨j, found'⟩ := List.mem_iff_getElem?.mp isHolder
      refine enabled_of_ready lawful sound found' ?_ ?_
      · cases holder <;> first | rfl | cases holds
      · cases holder <;> first | rfl | cases holds

/-- **Every execution returns.** From any state that can be reached, however the executions take
turns, there are at most thirteen steps for each; and as long as one has not returned, one of them
can take a step. -/
theorem executions_return (lawful : lib.Lawful)
    (run : Run step anyStep (init lib httpFetcher limit start) ls s)
    (served : Run step moving s more s') :
    more.length ≤ 13 * s.calls.length ∧
      ((∀ l s'', moving s' l → step s' l ≠ some s'') →
        ∀ pc ∈ s'.calls, ∃ result, pc = .returned result) := by
  constructor
  · have steps := served.length_add_work_le work_lt_of_moving
    have most := work_le WorkflowPC.rank WorkflowPC.rank_le s.calls
    omega
  · have sound := sound_of_run lawful (run.trans served.any)
    refine forall_done_of_stuck fun id pc found unreturned => enabled lawful sound found ?_
    cases pc with
    | returned result => exact absurd ⟨result, rfl⟩ unreturned
    | _ => rfl

theorem executions_return_both : ∃ s s',
    Run step anyStep (Sample.executions 2) Sample.contended s ∧
      Run step moving s Sample.contendedRest s' ∧ s'.inProgress = 0 ∧
      Sample.contendedRest.length ≤ 13 * s.calls.length := by
  obtain ⟨s, run, more⟩ : ∃ s, Run step anyStep (Sample.executions 2) Sample.contended s ∧
      (exec step moving s Sample.contendedRest).any (·.inProgress = 0) = true :=
    Run.exists_of_exec (by decide +kernel)
  obtain ⟨s', served, done⟩ := Run.exists_of_exec more
  exact ⟨s, s', run, served, done, (executions_return (Semaphores.queues_lawful Nat) run served).1⟩

end ExecutionSystem

end ConfidentialCompute.Workflows
