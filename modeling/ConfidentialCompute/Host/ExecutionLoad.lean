import ConfidentialCompute.Lib.Go
import ConfidentialCompute.Lib.Heap
import ConfidentialCompute.Lib.Windows

/-!
# The load metrics of the host

`startExecution` counts an execution and returns a function that counts it off again, at most once
however often it is called. Collections report the load and the peaks since the collection before.
Each of the three has one critical section, which is a step of the model; what a call records
outside of it is recorded in the same step. The `int64` counters are integers: it would take
`2 ^ 63` calls to make one wrap.

A finish function is an index into the list of those that were returned.
-/

namespace ConfidentialCompute

open Go Runs Heap

structure ExecutionMetadata where
  appID : Bytes
  workflowID : Bytes
  requestKind : Bytes
deriving DecidableEq

def executionOutcomeSuccess : Bytes := ascii "success"
def executionOutcomeError : Bytes := ascii "error"
def executionFailureCapacity : Bytes := ascii "capacity"
def executionFailureUnknown : Bytes := ascii "unknown"

/-- Keys and values. -/
abbrev Attributes := List (Bytes × Bytes)

def executionMetricAttributes (metadata : ExecutionMetadata) : Attributes :=
  (ascii "app.id", metadata.appID) ::
    if metadata.requestKind ≠ [] then [(ascii "request.kind", metadata.requestKind)] else []

def executionResultAttributes (metadata : ExecutionMetadata) (outcome failureReason : Bytes) :
    Attributes :=
  executionMetricAttributes metadata ++ (ascii "outcome", outcome) ::
    if failureReason ≠ [] then [(ascii "failure.reason", failureReason)] else []

/-- What is recorded with an instrument. Durations are in nanoseconds. -/
inductive Measurement where
  | executionsStarted (attrs : Attributes)
  | executionsRejected (attrs : Attributes)
  | quorumWaitDuration (duration : Int) (attrs : Attributes)
  | executionDuration (duration : Int) (attrs : Attributes)
  | totalDuration (duration : Int) (attrs : Attributes)
deriving DecidableEq

/-- The function that `startExecution` returns: what it has captured, and its `sync.Once`. -/
structure FinishFunc where
  metadata : ExecutionMetadata
  quorumWait : Int
  startedAt : Int
  done : Bool
deriving DecidableEq

/-- The execution belongs to the workflow and is not finished. -/
def FinishFunc.isOpen (workflowID : Bytes) (f : FinishFunc) : Bool :=
  !f.done && decide (f.metadata.workflowID = workflowID)

/-- The fields of `hostMetrics` that `mu` guards, the functions returned and the measurements. -/
structure LoadMetrics where
  inflight : Int
  inflightMax : Int
  workflowCountMax : Int
  workflowRefs : GoMap Bytes Int
  finishFuncs : List FinishFunc
  recorded : List Measurement

def newLoadMetrics : LoadMetrics := ⟨0, 0, 0, ∅, [], []⟩

/-- What a collection observes. Each workflow ID is observed with the value one. -/
structure LoadReport where
  inflight : Int
  inflightMax : Int
  workflowsActiveMax : Int
  workflowIDs : Finset Bytes

namespace LoadMetrics

/-- `m.workflowRefs[workflowID]++` and the peak after it. -/
def addWorkflow (m : LoadMetrics) (workflowID : Bytes) : LoadMetrics :=
  let workflowRefs :=
    m.workflowRefs.insert workflowID ((m.workflowRefs.lookup workflowID).getD 0 + 1)
  let active : Int := workflowRefs.keys.card
  { m with
    workflowRefs := workflowRefs
    workflowCountMax := if active > m.workflowCountMax then active else m.workflowCountMax }

def startExecution (m : LoadMetrics) (metadata : ExecutionMetadata) (quorumWait now : Int) :
    LoadMetrics :=
  let baseAttrs := executionMetricAttributes metadata
  let inflight := m.inflight + 1
  let m := { m with
    inflight := inflight
    inflightMax := if inflight > m.inflightMax then inflight else m.inflightMax
    finishFuncs := m.finishFuncs ++ [⟨metadata, quorumWait, now, false⟩]
    recorded := m.recorded ++
      [.executionsStarted baseAttrs, .quorumWaitDuration quorumWait baseAttrs] }
  if metadata.workflowID ≠ [] then m.addWorkflow metadata.workflowID else m

/-- `m.workflowRefs[workflowID]--`, and the deletion at zero. -/
def dropWorkflow (m : LoadMetrics) (workflowID : Bytes) : LoadMetrics :=
  let refs := (m.workflowRefs.lookup workflowID).getD 0 - 1
  { m with
    workflowRefs :=
      if refs = 0 then (m.workflowRefs.insert workflowID refs).erase workflowID
      else m.workflowRefs.insert workflowID refs }

/-- Outcome and failure reason as they are recorded. -/
def normalizeOutcome (outcome failureReason : Bytes) : Bytes × Bytes :=
  if outcome ≠ executionOutcomeSuccess then
    (executionOutcomeError, if failureReason = [] then executionFailureUnknown else failureReason)
  else (outcome, [])

/-- The measurements of a finished execution. -/
def results (f : FinishFunc) (outcome failureReason : Bytes) (finishedAt : Int) :
    List Measurement :=
  let (outcome, failureReason) := normalizeOutcome outcome failureReason
  let duration := if finishedAt - f.startedAt < 0 then 0 else finishedAt - f.startedAt
  let attrs := executionResultAttributes f.metadata outcome failureReason
  [.executionDuration duration attrs, .totalDuration (f.quorumWait + duration) attrs] ++
    if failureReason = executionFailureCapacity then
      [.executionsRejected (executionMetricAttributes f.metadata)]
    else []

/-- A call of the finish function `i`. -/
def finish (m : LoadMetrics) (i : Nat) (outcome failureReason : Bytes) (now : Int) :
    Option LoadMetrics :=
  match m.finishFuncs[i]? with
  | none => none
  | some f =>
      if f.done then some m
      else
        let m := { m with
          inflight := m.inflight - 1
          finishFuncs := m.finishFuncs.set i { f with done := true }
          recorded := m.recorded ++ results f outcome failureReason now }
        some (if f.metadata.workflowID ≠ [] then m.dropWorkflow f.metadata.workflowID else m)

def observeExecutionLoad (m : LoadMetrics) : LoadMetrics × LoadReport :=
  let report : LoadReport := ⟨m.inflight, m.inflightMax, m.workflowCountMax, m.workflowRefs.keys⟩
  ({ m with inflightMax := m.inflight, workflowCountMax := m.workflowRefs.keys.card }, report)

end LoadMetrics

/-- The critical sections. -/
inductive LoadEvent where
  | start (metadata : ExecutionMetadata) (quorumWait now : Int)
  | finish (i : Nat) (outcome failureReason : Bytes) (now : Int)
  | collect

namespace LoadMetrics

def step (m : LoadMetrics) : LoadEvent → Option LoadMetrics
  | .start metadata quorumWait now => some (m.startExecution metadata quorumWait now)
  | .finish i outcome failureReason now => m.finish i outcome failureReason now
  | .collect => some m.observeExecutionLoad.1

/-! ## What the counters say -/

/-- The unfinished executions of a workflow. -/
def unfinished (m : LoadMetrics) (workflowID : Bytes) : Nat :=
  m.finishFuncs.countP (·.isOpen workflowID)

/-- The workflows with an unfinished execution. -/
def activeWorkflows (m : LoadMetrics) : Finset Bytes :=
  (((m.finishFuncs.filter fun f => !f.done).map fun f => f.metadata.workflowID).filter
    (· ≠ [])).toFinset

structure Exact (m : LoadMetrics) : Prop where
  inflight : m.inflight = m.finishFuncs.length - m.finishFuncs.countP (·.done)
  refs : ∀ workflowID, m.workflowRefs.lookup workflowID =
    if workflowID = [] ∨ m.unfinished workflowID = 0 then none
    else some (m.unfinished workflowID : Int)

variable {m m' : LoadMetrics} {i : Nat} {f : FinishFunc} {workflowID : Bytes}

theorem Exact.getD_refs (exact_ : m.Exact) (named : workflowID ≠ []) :
    (m.workflowRefs.lookup workflowID).getD 0 = m.unfinished workflowID := by
  rw [exact_.refs]
  by_cases none_ : m.unfinished workflowID = 0
  · simp [none_]
  · simp [named, none_]

theorem Exact.mem_refs (exact_ : m.Exact) :
    workflowID ∈ m.workflowRefs ↔ workflowID ≠ [] ∧ m.unfinished workflowID ≠ 0 := by
  rw [Finmap.mem_iff, exact_.refs]
  by_cases none_ : workflowID = [] ∨ m.unfinished workflowID = 0
  · rw [if_pos none_]
    exact iff_of_false nofun fun both => none_.elim both.1 both.2
  · rw [if_neg none_]
    exact iff_of_true ⟨_, rfl⟩ (not_or.mp none_)

theorem Exact.keys_refs (exact_ : m.Exact) : m.workflowRefs.keys = m.activeWorkflows := by
  ext workflowID
  rw [Finmap.mem_keys, exact_.mem_refs, unfinished, Nat.ne_zero_iff_zero_lt, List.countP_pos_iff]
  simp only [activeWorkflows, FinishFunc.isOpen, List.mem_toFinset, List.mem_filter, List.mem_map,
    Bool.and_eq_true, decide_eq_true_eq]
  constructor
  · rintro ⟨named, f, among, isOpen, same⟩
    exact ⟨⟨f, ⟨among, isOpen⟩, same⟩, named⟩
  · rintro ⟨⟨f, ⟨among, isOpen⟩, same⟩, named⟩
    exact ⟨named, f, among, isOpen, same⟩

/-! ## One step -/

theorem countP_isOpen_concat (fs : List FinishFunc) (isOpen : f.done = false) :
    (fs ++ [f]).countP (·.isOpen workflowID) =
      fs.countP (·.isOpen workflowID) + if f.metadata.workflowID = workflowID then 1 else 0 := by
  rw [List.countP_append, List.countP_singleton]
  simp [FinishFunc.isOpen, isOpen]

theorem startExecution_fields (m : LoadMetrics) (metadata : ExecutionMetadata)
    (quorumWait now : Int) :
    let m' := m.startExecution metadata quorumWait now
    m'.inflight = m.inflight + 1 ∧ m'.inflightMax = max m.inflightMax (m.inflight + 1) ∧
    m'.finishFuncs = m.finishFuncs ++ [⟨metadata, quorumWait, now, false⟩] ∧
    (metadata.workflowID = [] ∧ m'.workflowRefs = m.workflowRefs ∧
        m'.workflowCountMax = m.workflowCountMax ∨
      metadata.workflowID ≠ [] ∧
        m'.workflowRefs = m.workflowRefs.insert metadata.workflowID
          ((m.workflowRefs.lookup metadata.workflowID).getD 0 + 1) ∧
        m'.workflowCountMax = max m.workflowCountMax m'.workflowRefs.keys.card) := by
  have raised (old new : Int) : (if new > old then new else old) = max old new := by omega
  unfold startExecution
  simp only
  split
  · rename_i named
    exact ⟨rfl, raised _ _, rfl, Or.inr ⟨named, rfl, raised _ _⟩⟩
  · rename_i unnamed
    exact ⟨rfl, raised _ _, rfl, Or.inl ⟨not_not.mp unnamed, rfl, rfl⟩⟩

theorem Exact.startExecution (exact_ : m.Exact) (metadata : ExecutionMetadata)
    (quorumWait now : Int) : (m.startExecution metadata quorumWait now).Exact := by
  have fields := startExecution_fields m metadata quorumWait now
  generalize m.startExecution metadata quorumWait now = m' at fields
  rcases fields with ⟨inflight, _, funcs, refs⟩
  have count := exact_.inflight
  refine ⟨?_, fun workflowID => ?_⟩
  · rw [inflight, funcs, List.length_append, List.countP_append]
    simp only [List.length_singleton, List.countP_singleton, Bool.false_eq_true, if_false]
    omega
  · have more : m'.unfinished workflowID =
        m.unfinished workflowID + if metadata.workflowID = workflowID then 1 else 0 := by
      rw [unfinished, funcs, countP_isOpen_concat _ rfl]
      rfl
    rw [more]
    rcases refs with ⟨unnamed, refs, _⟩ | ⟨named, refs, _⟩
    · rw [refs, exact_.refs, unnamed]
      by_cases same : workflowID = []
      · simp [same]
      · rw [if_neg (Ne.symm same), Nat.add_zero]
    · rw [refs, lookup_insert_eq, exact_.getD_refs named]
      by_cases same : workflowID = metadata.workflowID
      · subst same
        simp [named]
      · rw [if_neg same, if_neg (Ne.symm same), Nat.add_zero, exact_.refs]

section

variable {fs : List FinishFunc}

theorem countP_done_set (found : fs[i]? = some f) (isOpen : f.done = false) :
    (fs.set i { f with done := true }).countP (·.done) = fs.countP (·.done) + 1 := by
  rcases List.getElem?_eq_some_iff.mp found with ⟨bound, isF⟩
  rw [List.countP_set bound, isF, isOpen]
  simp

theorem countP_isOpen_set (found : fs[i]? = some f) (isOpen : f.done = false)
    (workflowID : Bytes) :
    (fs.set i { f with done := true }).countP (·.isOpen workflowID) +
        (if f.metadata.workflowID = workflowID then 1 else 0) =
      fs.countP (·.isOpen workflowID) := by
  rcases List.getElem?_eq_some_iff.mp found with ⟨bound, isF⟩
  have closed : ({ f with done := true } : FinishFunc).isOpen workflowID = false := rfl
  have opened : f.isOpen workflowID = decide (f.metadata.workflowID = workflowID) := by
    simp [FinishFunc.isOpen, isOpen]
  rw [List.countP_set bound, isF, closed, opened]
  by_cases same : f.metadata.workflowID = workflowID
  · have counted : 0 < fs.countP (·.isOpen workflowID) :=
      List.countP_pos_iff.mpr ⟨f, List.mem_of_getElem? found, by rw [opened]; simp [same]⟩
    simp [same]
    omega
  · simp [same]

end

/-- A call of a finish function that has been called does nothing; the first call counts the
execution off. -/
theorem finish_cases {outcome failureReason : Bytes} {now : Int}
    (taken : m.finish i outcome failureReason now = some m') :
    ∃ f, m.finishFuncs[i]? = some f ∧
      ((f.done = true ∧ m' = m) ∨
        (f.done = false ∧ m'.inflight = m.inflight - 1 ∧
          m'.inflightMax = m.inflightMax ∧ m'.workflowCountMax = m.workflowCountMax ∧
          m'.finishFuncs = m.finishFuncs.set i { f with done := true } ∧
          m'.workflowRefs = if f.metadata.workflowID ≠ []
            then (m.dropWorkflow f.metadata.workflowID).workflowRefs else m.workflowRefs)) := by
  unfold finish at taken
  cases found : m.finishFuncs[i]? with
  | none =>
      rw [found] at taken
      cases taken
  | some f =>
      rw [found] at taken
      simp only at taken
      refine ⟨f, rfl, ?_⟩
      by_cases done : f.done = true
      · rw [if_pos done] at taken
        cases taken
        exact Or.inl ⟨done, rfl⟩
      · rw [if_neg done] at taken
        cases taken
        refine Or.inr ⟨by simpa using done, ?_⟩
        split
        · exact ⟨rfl, rfl, rfl, rfl, rfl⟩
        · exact ⟨rfl, rfl, rfl, rfl, rfl⟩

theorem Exact.finish (exact_ : m.Exact) {outcome failureReason : Bytes} {now : Int}
    (taken : m.finish i outcome failureReason now = some m') : m'.Exact := by
  rcases finish_cases taken with ⟨f, found, ⟨_, rfl⟩ | ⟨isOpen, inflight, _, _, funcs,
    refs⟩⟩
  · exact exact_
  · have count := exact_.inflight
    have done := countP_done_set found isOpen
    refine ⟨?_, fun workflowID => ?_⟩
    · rw [inflight, funcs, done, List.length_set]
      omega
    · have fewer := countP_isOpen_set found isOpen workflowID
      rw [← funcs] at fewer
      change m'.unfinished workflowID + _ = m.unfinished workflowID at fewer
      rw [refs]
      by_cases same : f.metadata.workflowID = workflowID
      · rw [if_pos same] at fewer
        rw [same]
        by_cases named : workflowID = []
        · rw [if_neg (not_not.mpr named), exact_.refs, if_pos (Or.inl named),
            if_pos (Or.inl named)]
        · rw [if_pos named]
          simp only [dropWorkflow]
          rw [exact_.getD_refs named]
          by_cases last : m'.unfinished workflowID = 0
          · rw [if_pos (by omega), lookup_erase_eq, if_pos rfl, if_pos (Or.inr last)]
          · rw [if_neg (by omega), lookup_insert_eq, if_pos rfl,
              if_neg (not_or.mpr ⟨named, last⟩)]
            congr 1
            omega
      · rw [if_neg same, Nat.add_zero] at fewer
        rw [fewer, ← exact_.refs]
        split
        · simp only [dropWorkflow]
          split
          · rw [lookup_erase_eq, if_neg (Ne.symm same), lookup_insert_eq, if_neg (Ne.symm same)]
          · rw [lookup_insert_eq, if_neg (Ne.symm same)]
        · rfl

theorem Exact.observeExecutionLoad (exact_ : m.Exact) : m.observeExecutionLoad.1.Exact :=
  ⟨exact_.inflight, exact_.refs⟩

/-- **Every step keeps the counters exact.** -/
theorem Exact.step (exact_ : m.Exact) {event : LoadEvent} (taken : m.step event = some m') :
    m'.Exact := by
  cases event with
  | start metadata quorumWait now =>
      cases taken
      exact exact_.startExecution metadata quorumWait now
  | finish i outcome failureReason now => exact exact_.finish taken
  | collect =>
      cases taken
      exact exact_.observeExecutionLoad

theorem unfinished_finish_le {outcome failureReason : Bytes} {now : Int}
    (taken : m.finish i outcome failureReason now = some m') (workflowID : Bytes) :
    m'.unfinished workflowID ≤ m.unfinished workflowID := by
  rcases finish_cases taken with ⟨f, found, ⟨_, rfl⟩ | ⟨isOpen, _, _, _, funcs, _⟩⟩
  · exact Nat.le_refl _
  · have fewer := countP_isOpen_set found isOpen workflowID
    rw [unfinished, unfinished, funcs]
    omega

/-! ## Peaks -/

end LoadMetrics

def LoadEvent.isCollect : LoadEvent → Bool
  | .collect => true
  | _ => false

namespace LoadMetrics

variable {m m' : LoadMetrics} {event : LoadEvent}

theorem inflightMax_step (le : m.inflight ≤ m.inflightMax) (other : event.isCollect = false)
    (taken : m.step event = some m') : m'.inflightMax = max m.inflightMax m'.inflight := by
  cases event with
  | start metadata quorumWait now =>
      cases taken
      rcases startExecution_fields m metadata quorumWait now with ⟨inflight, peak, _⟩
      rw [inflight, peak]
  | finish i outcome failureReason now =>
      rcases finish_cases taken with ⟨f, _, ⟨_, rfl⟩ | ⟨_, inflight, peak, _⟩⟩
      · omega
      · omega
  | collect => cases other

/-- Only a start can make a workflow active. -/
theorem Exact.workflowCountMax_step (exact_ : m.Exact)
    (le : (m.workflowRefs.keys.card : Int) ≤ m.workflowCountMax) (other : event.isCollect = false)
    (taken : m.step event = some m') :
    m'.workflowCountMax = max m.workflowCountMax m'.workflowRefs.keys.card := by
  cases event with
  | start metadata quorumWait now =>
      cases taken
      rcases startExecution_fields m metadata quorumWait now with
        ⟨_, _, _, ⟨_, refs, peak⟩ | ⟨_, _, peak⟩⟩
      · rw [refs, peak]
        omega
      · exact peak
  | finish i outcome failureReason now =>
      have same : m'.workflowCountMax = m.workflowCountMax := by
        rcases finish_cases taken with ⟨f, _, ⟨_, rfl⟩ | ⟨_, _, _, peak, _⟩⟩
        · rfl
        · exact peak
      have fewer : m'.workflowRefs.keys ⊆ m.workflowRefs.keys := by
        intro workflowID among
        rw [Finmap.mem_keys, (exact_.finish taken).mem_refs] at among
        rw [Finmap.mem_keys, exact_.mem_refs]
        have le := unfinished_finish_le taken workflowID
        exact ⟨among.1, by omega⟩
      have card := Finset.card_le_card fewer
      rw [same]
      omega
  | collect => cases other

theorem exact_newLoadMetrics : newLoadMetrics.Exact := by
  refine ⟨rfl, fun workflowID => ?_⟩
  exact (Finmap.lookup_empty workflowID).trans (if_pos (Or.inr rfl)).symm

/-! ## Histories -/

end LoadMetrics

/-- The executions started in a history. -/
def startedIn (events : List LoadEvent) : List ExecutionMetadata :=
  events.filterMap fun
    | .start metadata _ _ => some metadata
    | _ => none

/-- The finish function `i` has been called. -/
def FinishCalled (events : List LoadEvent) (i : Nat) : Prop :=
  ∃ outcome failureReason now, LoadEvent.finish i outcome failureReason now ∈ events

/-- There is one finish function for each execution started, and those that were called are done. -/
structure Tracks (events : List LoadEvent) (m : LoadMetrics) : Prop where
  started : m.finishFuncs.map (·.metadata) = startedIn events
  done : ∀ i f, m.finishFuncs[i]? = some f → (f.done = true ↔ FinishCalled events i)
  called : ∀ i, FinishCalled events i → i < m.finishFuncs.length

section

variable {events : List LoadEvent} {m m' : LoadMetrics} {event : LoadEvent}

theorem finishCalled_concat_other {i : Nat}
    (other : ∀ outcome failureReason now, event ≠ .finish i outcome failureReason now) :
    FinishCalled (events ++ [event]) i ↔ FinishCalled events i := by
  constructor
  · rintro ⟨outcome, failureReason, now, among⟩
    rcases List.mem_append.mp among with among | among
    · exact ⟨outcome, failureReason, now, among⟩
    · exact absurd (List.mem_singleton.mp among).symm (other outcome failureReason now)
  · rintro ⟨outcome, failureReason, now, among⟩
    exact ⟨outcome, failureReason, now, List.mem_append_left _ among⟩

/-- A call of finish function `i` leaves the others alone and has that one done. -/
theorem finishFuncs_finish {i : Nat} {outcome failureReason : Bytes} {now : Int}
    (taken : m.finish i outcome failureReason now = some m') :
    i < m.finishFuncs.length ∧
    m'.finishFuncs.map (·.metadata) = m.finishFuncs.map (·.metadata) ∧
    ∀ j g, m'.finishFuncs[j]? = some g →
      (j = i ∧ g.done = true) ∨ (j ≠ i ∧ m.finishFuncs[j]? = some g) := by
  rcases LoadMetrics.finish_cases taken with ⟨f, found, cases_⟩
  have bound := lt_of_getElem? found
  refine ⟨bound, ?_⟩
  rcases cases_ with ⟨done, rfl⟩ | ⟨_, _, _, _, funcs, _⟩
  · refine ⟨rfl, fun j g found' => ?_⟩
    by_cases same : j = i
    · subst same
      cases found.symm.trans found'
      exact Or.inl ⟨rfl, done⟩
    · exact Or.inr ⟨same, found'⟩
  · rw [funcs]
    refine ⟨?_, fun j g found' => ?_⟩
    · apply List.ext_getElem?
      intro j
      rw [List.map_set, List.getElem?_set]
      by_cases same : i = j
      · subst same
        rw [if_pos rfl, List.length_map, if_pos bound, List.getElem?_map, found]
        rfl
      · rw [if_neg same]
    · by_cases same : j = i
      · subst same
        rw [List.getElem?_set_self bound] at found'
        cases found'
        exact Or.inl ⟨rfl, rfl⟩
      · rw [List.getElem?_set_ne (Ne.symm same)] at found'
        exact Or.inr ⟨same, found'⟩

theorem Tracks.finish (tracks : Tracks events m) {i : Nat} {outcome failureReason : Bytes}
    {now : Int} (taken : m.finish i outcome failureReason now = some m') :
    Tracks (events ++ [.finish i outcome failureReason now]) m' := by
  rcases finishFuncs_finish taken with ⟨bound, metadata, funcs⟩
  have length : m'.finishFuncs.length = m.finishFuncs.length := by
    simpa using congrArg List.length metadata
  have called : FinishCalled (events ++ [.finish i outcome failureReason now]) i :=
    ⟨outcome, failureReason, now, List.mem_append_right _ List.mem_cons_self⟩
  have others : ∀ j, j ≠ i → (FinishCalled (events ++ [.finish i outcome failureReason now]) j ↔
      FinishCalled events j) := fun j other => by
    refine finishCalled_concat_other fun _ _ _ same => ?_
    cases same
    exact other rfl
  refine ⟨?_, fun j g found => ?_, fun j isCalled => ?_⟩
  · rw [metadata, tracks.started]
    simp [startedIn]
  · rcases funcs j g found with ⟨rfl, done⟩ | ⟨other, found⟩
    · exact iff_of_true done called
    · rw [others j other]
      exact tracks.done j g found
  · rw [length]
    by_cases same : j = i
    · rw [same]
      exact bound
    · exact tracks.called j ((others j same).mp isCalled)

theorem Tracks.step (tracks : Tracks events m) (taken : m.step event = some m') :
    Tracks (events ++ [event]) m' := by
  cases event with
  | start metadata quorumWait now =>
      cases taken
      rcases LoadMetrics.startExecution_fields m metadata quorumWait now with ⟨_, _, funcs, _⟩
      have same : ∀ i, FinishCalled (events ++ [.start metadata quorumWait now]) i ↔
          FinishCalled events i := fun i => finishCalled_concat_other nofun
      refine ⟨?_, fun i f found => ?_, fun i isCalled => ?_⟩
      · rw [funcs, List.map_append, tracks.started]
        simp [startedIn]
      · rw [funcs, getElem?_alloc] at found
        rw [same]
        split at found
        · rename_i last
          cases found
          refine iff_of_false nofun fun isCalled => ?_
          have bound := tracks.called i isCalled
          omega
        · exact tracks.done i f found
      · have bound := tracks.called i ((same i).mp isCalled)
        rw [funcs, List.length_append]
        omega
  | finish i outcome failureReason now => exact tracks.finish taken
  | collect =>
      cases taken
      have same : ∀ i, FinishCalled (events ++ [.collect]) i ↔ FinishCalled events i :=
        fun i => finishCalled_concat_other nofun
      refine ⟨?_, fun i f found => ?_, fun i isCalled => ?_⟩
      · show m.finishFuncs.map (·.metadata) = _
        rw [tracks.started]
        simp [startedIn]
      · rw [same]
        exact tracks.done i f found
      · exact tracks.called i ((same i).mp isCalled)

end

open LoadMetrics

/-- **Load metrics are exact** over every interleaving of starts, calls of finish functions and
collections. There is one finish function for each start, done if it was called. The load in flight
is the number of executions started less those finished; a non-empty workflow ID is in the map
exactly if it has an unfinished execution, with their number; and a collection reports as peaks the
greatest load and the greatest number of active workflows since the one before. -/
theorem load_metrics_exact (events : List LoadEvent) (m : LoadMetrics)
    (run : Run LoadMetrics.step anyStep newLoadMetrics events m) :
    Tracks events m ∧
    m.inflight = m.finishFuncs.length - m.finishFuncs.countP (·.done) ∧
    (∀ workflowID n, m.workflowRefs.lookup workflowID = some n ↔
      workflowID ≠ [] ∧ m.unfinished workflowID ≠ 0 ∧ n = m.unfinished workflowID) ∧
    m.observeExecutionLoad.2.inflight = m.inflight ∧
    m.observeExecutionLoad.2.workflowIDs = m.activeWorkflows ∧
    IsGreatest {n | ∃ t, VisitedSince LoadMetrics.step anyStep newLoadMetrics LoadEvent.isCollect
      events t ∧ t.inflight = n} m.observeExecutionLoad.2.inflightMax ∧
    IsGreatest {n | ∃ t, VisitedSince LoadMetrics.step anyStep newLoadMetrics LoadEvent.isCollect
      events t ∧ (t.activeWorkflows.card : Int) = n}
      m.observeExecutionLoad.2.workflowsActiveMax := by
  have exactAt : ∀ ls t, Run LoadMetrics.step anyStep newLoadMetrics ls t → t.Exact :=
    fun ls t run =>
      run.invariant exact_newLoadMetrics fun s l s' exact_ _ taken => exact_.step taken
  have exact_ := exactAt events m run
  have tracks : Tracks events m := by
    refine run.invariant_history ⟨rfl, fun i f found => ?_, ?_⟩
      fun _ _ _ _ _ tracks _ taken => tracks.step taken
    · simp [newLoadMetrics] at found
    · rintro i ⟨_, _, _, among⟩
      cases among
  refine ⟨tracks, exact_.inflight, fun workflowID n => ?_, rfl, exact_.keys_refs, ?_, ?_⟩
  · rw [exact_.refs]
    by_cases none_ : workflowID = [] ∨ m.unfinished workflowID = 0
    · rw [if_pos none_]
      exact iff_of_false nofun fun all => none_.elim all.1 all.2.1
    · rw [if_neg none_, Option.some.injEq, ← and_assoc]
      exact ⟨fun same => ⟨not_or.mp none_, same.symm⟩, fun all => all.2.symm⟩
  · refine run.isGreatest_peak LoadMetrics.inflight LoadMetrics.inflightMax rfl
      (fun s l s' isCollect taken => ?_) fun _ s l s' _ le other taken =>
        inflightMax_step le other taken
    cases l with
    | collect =>
        cases taken
        rfl
    | _ => cases isCollect
  · have active : {n | ∃ t, VisitedSince LoadMetrics.step anyStep newLoadMetrics
          LoadEvent.isCollect events t ∧ (t.activeWorkflows.card : Int) = n} =
        {n | ∃ t, VisitedSince LoadMetrics.step anyStep newLoadMetrics
          LoadEvent.isCollect events t ∧ (t.workflowRefs.keys.card : Int) = n} := by
      ext n
      refine exists_congr fun t => and_congr_right fun ⟨window, _, visited⟩ => ?_
      rw [(exactAt _ t visited).keys_refs]
    rw [active]
    refine run.isGreatest_peak (fun t => (t.workflowRefs.keys.card : Int))
      LoadMetrics.workflowCountMax rfl (fun s l s' isCollect taken => ?_)
      fun ls s l s' before le other taken =>
        (exactAt ls s before).workflowCountMax_step le other taken
    cases l with
    | collect =>
        cases taken
        rfl
    | _ => cases isCollect

namespace Sample

def oneWorkflow : ExecutionMetadata := ⟨ascii "confidential-workflows", ascii "w", []⟩

/-- An execution ends between two collections, and its finish function is called once more. -/
def loadEvents : List LoadEvent :=
  [.start oneWorkflow 0 1, .collect, .start oneWorkflow 0 2,
    .finish 0 executionOutcomeSuccess [] 3, .finish 0 executionOutcomeError [] 4]

end Sample

/-- The load is one, and the peak since the collection is two, of one workflow. -/
theorem load_metrics_exact_repeated_finish :
    ∃ m, Run LoadMetrics.step anyStep newLoadMetrics Sample.loadEvents m ∧ m.inflight = 1 ∧
      m.observeExecutionLoad.2.inflightMax = 2 ∧ m.observeExecutionLoad.2.workflowsActiveMax = 1 ∧
      m.inflight = m.finishFuncs.length - m.finishFuncs.countP (·.done) ∧
      m.observeExecutionLoad.2.workflowIDs = m.activeWorkflows := by
  have found : ∃ m, Run LoadMetrics.step anyStep newLoadMetrics Sample.loadEvents m ∧
      (m.inflight = 1 ∧ m.inflightMax = 2 ∧ m.workflowCountMax = 1) :=
    Run.exists_of_exec (by decide +kernel)
  rcases found with ⟨m, run, inflight, peak, workflows⟩
  rcases load_metrics_exact Sample.loadEvents m run with ⟨_, count, _, _, active, _⟩
  exact ⟨m, run, inflight, peak, workflows, count, active⟩

end ConfidentialCompute
