import ConfidentialCompute.Lib.Interleave
import ConfidentialCompute.Lib.Runs
import ConfidentialCompute.Workflows.Settings

/-!
# Two injections at a time

`handleInjectSettings` takes no lock, and `InjectSettings` takes its mutex for one store at a
time. So two calls interleave: each lock section and each atomic store is a step. What a field
holds in the end was stored by the call that came to it last, which need not be the same call for
every field.
-/

namespace ConfidentialCompute.Workflows

open Go Runs Interleave

variable {φ : Type}

/-! ## The steps of a call -/

/-- The storage factory is called between two lock sections, with values that the call read back
when it stored them; the step is the section after it. -/
inductive InjectStep where
  | cacheBound
  | httpTimeout
  | executionTimeout
  | compileSlots
  | gracePeriod
  | endpoint
  | storage
  | dispatcher
deriving DecidableEq

def InjectStep.order : List InjectStep :=
  [.cacheBound, .httpTimeout, .executionTimeout, .compileSlots, .gracePeriod, .endpoint, .storage,
    .dispatcher]

theorem InjectStep.mem_order (i : InjectStep) : i ∈ order := by cases i <;> decide

theorem InjectStep.nodup_order : order.Nodup := by decide

def InjectStep.run (req : WorkflowSettings) (factories : Factories φ) (a : WorkflowsApp φ) :
    InjectStep → Except Bytes Unit × WorkflowsApp φ
  | .cacheBound => (.ok (), a.setMaxCacheBytes req)
  | .httpTimeout => (.ok (), a.setDefaultTimeout req)
  | .executionTimeout => (.ok (), a.storeExecutionTimeout req)
  | .compileSlots => (.ok (), a.storeCompileSlots req)
  | .gracePeriod => (.ok (), a.storeGracePeriod req)
  | .endpoint => (.ok (), a.setStorageService req)
  | .storage =>
      match factories.storageFor req with
      | .error err => (.error (ascii "building storage fetcher: " ++ err), a)
      | .ok fetcher => (.ok (), a.swapStorageFetcher fetcher)
  | .dispatcher => a.buildDispatcher req factories

/-- A call whose payload has passed the check, with the steps it has before it. -/
structure InjectCall (φ : Type) where
  req : WorkflowSettings
  factories : Factories φ
  todo : List InjectStep

namespace InjectCall

def start (req : WorkflowSettings) (factories : Factories φ) : InjectCall φ :=
  ⟨req, factories, InjectStep.order⟩

/-- The call takes its next step, which is `i`. A step that fails is its last. -/
def take (call : InjectCall φ) (a : WorkflowsApp φ) (i : InjectStep) :
    Option (WorkflowsApp φ × InjectCall φ) :=
  match call.todo with
  | [] => none
  | next :: rest =>
      if next = i then
        match i.run call.req call.factories a with
        | (.ok _, a) => some (a, { call with todo := rest })
        | (.error _, a) => some (a, { call with todo := [] })
      else none

/-- Both factories return what they are asked for. -/
structure Succeeds (call : InjectCall φ) (fetcher : φ) : Prop where
  valid : call.req.validate = .ok ()
  storage : call.factories.storageFor call.req = .ok fetcher
  dispatcher : ∃ d, call.factories.dispatcher call.req.gateway = .ok d

variable {call call' : InjectCall φ} {a a' : WorkflowsApp φ} {i : InjectStep} {fetcher : φ}

theorem Succeeds.congr (succeeds : call.Succeeds fetcher) (req : call'.req = call.req)
    (factories : call'.factories = call.factories) : call'.Succeeds fetcher := by
  obtain ⟨valid, storage, dispatcher⟩ := succeeds
  rw [← req] at valid storage dispatcher
  rw [← factories] at storage dispatcher
  exact ⟨valid, storage, dispatcher⟩

theorem Succeeds.run_ok (succeeds : call.Succeeds fetcher) (a : WorkflowsApp φ)
    (i : InjectStep) : (i.run call.req call.factories a).1 = .ok () := by
  cases i with
  | storage => rw [InjectStep.run, succeeds.storage]
  | dispatcher =>
      obtain ⟨d, built⟩ := succeeds.dispatcher
      rw [InjectStep.run, WorkflowsApp.buildDispatcher, built]
      split <;> rfl
  | _ => rfl

/-- A call that does not fail takes its steps one after the other. -/
theorem Succeeds.take_iff (succeeds : call.Succeeds fetcher) :
    call.take a i = some (a', call') ↔
      ∃ rest, call.todo = i :: rest ∧ a' = (i.run call.req call.factories a).2 ∧
        call' = { call with todo := rest } := by
  rw [take]
  cases call.todo with
  | nil => exact iff_of_false nofun fun ⟨_, more, _⟩ => nomatch more
  | cons next rest =>
      by_cases isNext : next = i
      · subst isNext
        have ok := succeeds.run_ok a next
        simp only [if_pos]
        generalize next.run call.req call.factories a = result at ok
        obtain ⟨status, after⟩ := result
        cases ok
        constructor
        · intro taken
          cases taken
          exact ⟨rest, rfl, rfl, rfl⟩
        · rintro ⟨_, more, rfl, rfl⟩
          cases more
          rfl
      · simp only [if_neg isNext]
        refine iff_of_false nofun ?_
        rintro ⟨_, more, _⟩
        cases more
        exact isNext rfl

end InjectCall

/-! ## What the steps store -/

/-- The type of what a step stores. -/
def Register (φ : Type) : InjectStep → Type
  | .cacheBound => Int
  | .httpTimeout => Option Int
  | .executionTimeout => Int
  | .compileSlots => Int
  | .gracePeriod => Int
  | .endpoint => Bytes × Bool
  | .storage => Option φ
  | .dispatcher => Unit

/-- The settings of an app, by the steps that store them. -/
def WorkflowsApp.registers (a : WorkflowsApp φ) : (i : InjectStep) → Register φ i
  | .cacheBound => a.fetcher.maxCacheBytes
  | .httpTimeout => a.httpFetcher
  | .executionTimeout => a.executionTimeout
  | .compileSlots => a.compileSlots.size
  | .gracePeriod => a.gracePeriod
  | .endpoint => (a.storageServiceURL, a.storageServiceTLS)
  | .storage => a.storageFetcher
  | .dispatcher => ()

/-- What a step of a call makes of a register. -/
def WorkflowSettings.put (req : WorkflowSettings) (fetcher : φ) :
    (i : InjectStep) → Register φ i → Register φ i
  | .cacheBound => fun (old : Int) => if 0 < req.maxCacheBytes then req.maxCacheBytes else old
  | .httpTimeout => fun (old : Option Int) =>
      old.map fun d => if 0 < req.requestTimeout then req.requestTimeout else d
  | .executionTimeout => fun (old : Int) =>
      if 0 < req.executionTimeout then req.executionTimeout else old
  | .compileSlots => fun (old : Int) =>
      if 0 < req.maxConcurrentCompilations then req.maxConcurrentCompilations else old
  | .gracePeriod => fun (old : Int) =>
      if req.workflowGracePeriod ≠ 0 then req.workflowGracePeriod else old
  | .endpoint => fun _ => (req.storageServiceURL, req.storageServiceTLS)
  | .storage => fun _ => some fetcher
  | .dispatcher => id

variable {call : InjectCall φ} {a a' : WorkflowsApp φ} {fetcher : φ}

theorem registers_setMaxCacheBytes (req : WorkflowSettings) (fetcher : φ) (a : WorkflowsApp φ) :
    (a.setMaxCacheBytes req).registers .cacheBound =
      req.put fetcher .cacheBound (a.registers .cacheBound) := by
  show (a.fetcher.setMaxCacheBytes req.maxCacheBytes).maxCacheBytes =
    if 0 < req.maxCacheBytes then req.maxCacheBytes else a.fetcher.maxCacheBytes
  by_cases positive : 0 < req.maxCacheBytes
  · rw [if_pos positive, BinaryFetcher.maxCacheBytes_setMaxCacheBytes positive]
  · rw [if_neg positive, BinaryFetcher.setMaxCacheBytes_ignored (Int.not_lt.mp positive)]

theorem registers_setDefaultTimeout (req : WorkflowSettings) (fetcher : φ) (a : WorkflowsApp φ) :
    (a.setDefaultTimeout req).registers .httpTimeout =
      req.put fetcher .httpTimeout (a.registers .httpTimeout) := by
  refine congrFun (congrArg Option.map (funext fun d => ?_)) a.httpFetcher
  by_cases positive : 0 < req.requestTimeout
  · rw [if_pos positive, if_neg (Int.not_le.mpr positive)]
  · rw [if_neg positive, if_pos (Int.not_lt.mp positive)]

theorem registers_storeCompileSlots (req : WorkflowSettings) (fetcher : φ) (a : WorkflowsApp φ) :
    (a.storeCompileSlots req).registers .compileSlots =
      req.put fetcher .compileSlots (a.registers .compileSlots) :=
  apply_ite Semaphore.size _ _ _

theorem registers_buildDispatcher (req : WorkflowSettings) (factories : Factories φ)
    (a : WorkflowsApp φ) : (a.buildDispatcher req factories).2.registers = a.registers := by
  rw [WorkflowsApp.buildDispatcher]
  split
  · cases factories.dispatcher req.gateway with
    | error err => rfl
    | ok d => funext i; cases i <;> rfl
  · rfl

theorem InjectCall.Succeeds.registers_run (succeeds : call.Succeeds fetcher)
    (a : WorkflowsApp φ) (i : InjectStep) :
    (i.run call.req call.factories a).2.registers =
      Function.update a.registers i (call.req.put fetcher i (a.registers i)) := by
  funext j
  cases i with
  | cacheBound =>
      cases j with
      | cacheBound => exact registers_setMaxCacheBytes call.req fetcher a
      | _ => rfl
  | httpTimeout =>
      cases j with
      | httpTimeout => exact registers_setDefaultTimeout call.req fetcher a
      | _ => rfl
  | compileSlots =>
      cases j with
      | compileSlots => exact registers_storeCompileSlots call.req fetcher a
      | _ => rfl
  | storage =>
      rw [InjectStep.run, succeeds.storage]
      cases j <;> rfl
  | dispatcher =>
      rw [InjectStep.run, registers_buildDispatcher]
      cases j <;> rfl
  | _ => cases j <;> rfl

theorem InjectCall.Succeeds.injectSettings_eq (succeeds : call.Succeeds fetcher)
    (a : WorkflowsApp φ) :
    (a.injectSettings (.settings call.req) call.factories).2 =
      InjectStep.order.foldl (fun a i => (i.run call.req call.factories a).2) a := by
  have asked : call.factories.storage (a.storeTunables call.req).storageServiceURL
      (a.storeTunables call.req).storageServiceTLS call.req.storageKey call.req.maxBinarySize
      call.req.binaryFetchTimeout = .ok fetcher := succeeds.storage
  simp only [WorkflowsApp.injectSettings, succeeds.valid, asked, InjectStep.order,
    List.foldl_cons, List.foldl_nil, InjectStep.run, succeeds.storage]
  rfl

/-! ## Two calls -/

/-- The app and the two calls in progress. -/
structure TwoInjections (φ : Type) where
  app : WorkflowsApp φ
  calls : Bool → InjectCall φ

/-- A label says which call takes a step, and which one. -/
def TwoInjections.step (s : TwoInjections φ) (l : Bool × InjectStep) :
    Option (TwoInjections φ) :=
  ((s.calls l.1).take s.app l.2).map fun (app, call) =>
    ⟨app, Function.update s.calls l.1 call⟩

/-- The call `x` follows the other. -/
def WorkflowsApp.injectBoth (a : WorkflowsApp φ) (calls : Bool → InjectCall φ) (x : Bool) :
    WorkflowsApp φ :=
  let a := (a.injectSettings (.settings (calls !x).req) (calls !x).factories).2
  (a.injectSettings (.settings (calls x).req) (calls x).factories).2

variable {calls : Bool → InjectCall φ} {fetcher : Bool → φ} {ls : List (Bool × InjectStep)}
  {s : TwoInjections φ}

theorem registers_foldl_run (succeeds : ∀ call, (calls call).Succeeds (fetcher call))
    (call : Bool) (steps : List InjectStep) (a : WorkflowsApp φ) :
    (steps.foldl (fun a i => (i.run (calls call).req (calls call).factories a).2) a).registers =
      (steps.map (Prod.mk call)).foldl (write fun call => (calls call).req.put (fetcher call))
        a.registers := by
  induction steps generalizing a with
  | nil => rfl
  | cons i steps ih =>
      rw [List.foldl_cons, ih, (succeeds call).registers_run]
      rfl

theorem registers_injectBoth (succeeds : ∀ call, (calls call).Succeeds (fetcher call))
    (x : Bool) :
    (a.injectBoth calls x).registers =
      (serial InjectStep.order x).foldl
        (write fun call => (calls call).req.put (fetcher call)) a.registers := by
  rw [WorkflowsApp.injectBoth, (succeeds (!x)).injectSettings_eq, (succeeds x).injectSettings_eq,
    registers_foldl_run succeeds, registers_foldl_run succeeds, serial, List.foldl_append]

/-- What a run of the two calls has done: each has taken its steps in order, and the registers
hold what these stored. -/
structure Progress (a : WorkflowsApp φ) (calls : Bool → InjectCall φ) (fetcher : Bool → φ)
    (ls : List (Bool × InjectStep)) (s : TwoInjections φ) : Prop where
  req : ∀ call, (s.calls call).req = (calls call).req
  factories : ∀ call, (s.calls call).factories = (calls call).factories
  taken : ∀ call, (ls.filter (·.1 = call)).map Prod.snd ++ (s.calls call).todo = (calls call).todo
  registers : s.app.registers =
    ls.foldl (write fun call => (calls call).req.put (fetcher call)) a.registers

theorem progress_step (succeeds : ∀ call, (calls call).Succeeds (fetcher call))
    (progress : Progress a calls fetcher ls s) {l : Bool × InjectStep} {s' : TwoInjections φ}
    (taken : s.step l = some s') : Progress a calls fetcher (ls ++ [l]) s' := by
  obtain ⟨call, i⟩ := l
  obtain ⟨⟨app, next⟩, takes, rfl⟩ := Option.map_eq_some_iff.mp taken
  have succeeds' := (succeeds call).congr (progress.req call) (progress.factories call)
  obtain ⟨rest, todo, rfl, rfl⟩ := succeeds'.take_iff.mp takes
  have kept : ∀ other, (Function.update s.calls call { s.calls call with todo := rest } other).req =
        (s.calls other).req ∧
      (Function.update s.calls call { s.calls call with todo := rest } other).factories =
        (s.calls other).factories := by
    intro other
    by_cases mine : other = call
    · subst mine
      rw [Function.update_self]
      exact ⟨rfl, rfl⟩
    · rw [Function.update_of_ne mine]
      exact ⟨rfl, rfl⟩
  refine ⟨fun other => (kept other).1.trans (progress.req other),
    fun other => (kept other).2.trans (progress.factories other), fun other => ?_, ?_⟩
  · rw [List.filter_append, List.map_append, List.append_assoc, ← progress.taken other]
    congr 1
    by_cases mine : other = call
    · subst mine
      show _ ++ (Function.update s.calls other _ other).todo = _
      rw [Function.update_self, todo]
      simp
    · show _ ++ (Function.update s.calls call _ other).todo = _
      rw [Function.update_of_ne mine]
      simp [Ne.symm mine]
  · rw [List.foldl_append, ← progress.registers]
    show (i.run (s.calls call).req (s.calls call).factories s.app).2.registers = _
    rw [succeeds'.registers_run, progress.req call]
    rfl

theorem progress_of_run (succeeds : ∀ call, (calls call).Succeeds (fetcher call))
    (run : Run TwoInjections.step anyStep ⟨a, calls⟩ ls s) : Progress a calls fetcher ls s :=
  run.invariant_history ⟨fun _ => rfl, fun _ => rfl, fun _ => rfl, rfl⟩
    fun _ _ _ _ _ progress _ taken => progress_step succeeds progress taken

/-! ## Serialisability -/

/-- The settings of the two apps are the same. -/
structure SameSettings (a a' : WorkflowsApp φ) : Prop where
  maxCacheBytes : a'.fetcher.maxCacheBytes = a.fetcher.maxCacheBytes
  httpFetcher : a'.httpFetcher = a.httpFetcher
  executionTimeout : a'.executionTimeout = a.executionTimeout
  compileSlots : a'.compileSlots.size = a.compileSlots.size
  gracePeriod : a'.gracePeriod = a.gracePeriod
  storageServiceURL : a'.storageServiceURL = a.storageServiceURL
  storageServiceTLS : a'.storageServiceTLS = a.storageServiceTLS
  storageFetcher : a'.storageFetcher = a.storageFetcher

theorem sameSettings_iff : SameSettings a a' ↔ a'.registers = a.registers := by
  constructor
  · intro same
    funext i
    cases i with
    | cacheBound => exact same.maxCacheBytes
    | httpTimeout => exact same.httpFetcher
    | executionTimeout => exact same.executionTimeout
    | compileSlots => exact same.compileSlots
    | gracePeriod => exact same.gracePeriod
    | endpoint => exact Prod.ext same.storageServiceURL same.storageServiceTLS
    | storage => exact same.storageFetcher
    | dispatcher => rfl
  · intro same
    have endpoint := congrFun same .endpoint
    exact ⟨congrFun same .cacheBound, congrFun same .httpTimeout, congrFun same .executionTimeout,
      congrFun same .compileSlots, congrFun same .gracePeriod, congrArg Prod.fst endpoint,
      congrArg Prod.snd endpoint, congrFun same .storage⟩

/-- The two payloads set the field of the step to different values. -/
def Conflict (a : WorkflowsApp φ) (calls : Bool → InjectCall φ) (fetcher : Bool → φ) :
    InjectStep → Prop
  | .cacheBound => (∀ call, 0 < (calls call).req.maxCacheBytes) ∧
      (calls false).req.maxCacheBytes ≠ (calls true).req.maxCacheBytes
  | .httpTimeout => a.httpFetcher ≠ none ∧ (∀ call, 0 < (calls call).req.requestTimeout) ∧
      (calls false).req.requestTimeout ≠ (calls true).req.requestTimeout
  | .executionTimeout => (∀ call, 0 < (calls call).req.executionTimeout) ∧
      (calls false).req.executionTimeout ≠ (calls true).req.executionTimeout
  | .compileSlots => (∀ call, 0 < (calls call).req.maxConcurrentCompilations) ∧
      (calls false).req.maxConcurrentCompilations ≠ (calls true).req.maxConcurrentCompilations
  | .gracePeriod => (∀ call, (calls call).req.workflowGracePeriod ≠ 0) ∧
      (calls false).req.workflowGracePeriod ≠ (calls true).req.workflowGracePeriod
  | .endpoint => (calls false).req.storageServiceURL ≠ (calls true).req.storageServiceURL ∨
      (calls false).req.storageServiceTLS ≠ (calls true).req.storageServiceTLS
  | .storage => fetcher false ≠ fetcher true
  | .dispatcher => False

/-- Two optional values stored one after the other: the order matters if both are there and
differ. -/
theorem stored_twice_iff (p : Int → Prop) [DecidablePred p] (value : Bool → Int) (x : Bool)
    (old : Int) :
    ((if p (value x) then value x else if p (value !x) then value !x else old) =
        if p (value !x) then value !x else if p (value x) then value x else old) ↔
      ¬ ((∀ call, p (value call)) ∧ value false ≠ value true) := by
  rw [Bool.forall_bool]
  cases x <;> by_cases first : p (value false) <;> by_cases second : p (value true) <;>
    simp [first, second, eq_comm]

theorem put_comm_iff (x : Bool) (i : InjectStep) :
    (calls x).req.put (fetcher x) i ((calls !x).req.put (fetcher !x) i (a.registers i)) =
        (calls !x).req.put (fetcher !x) i ((calls x).req.put (fetcher x) i (a.registers i)) ↔
      ¬ Conflict a calls fetcher i := by
  have sides : ∀ {α : Type} (value : Bool → α), value x = value !x ↔ value false = value true := by
    intro α value
    cases x
    · exact Iff.rfl
    · exact eq_comm
  cases i with
  | cacheBound => exact stored_twice_iff (0 < ·) (fun call => (calls call).req.maxCacheBytes) x _
  | httpTimeout =>
      show Option.map _ (Option.map _ a.httpFetcher) = Option.map _ (Option.map _ a.httpFetcher) ↔
        ¬ (a.httpFetcher ≠ none ∧ _)
      cases a.httpFetcher with
      | none => exact iff_of_true rfl fun conflict => conflict.1 rfl
      | some d =>
          rw [and_iff_right (Option.some_ne_none d)]
          exact Option.some_inj.trans
            (stored_twice_iff (0 < ·) (fun call => (calls call).req.requestTimeout) x d)
  | executionTimeout =>
      exact stored_twice_iff (0 < ·) (fun call => (calls call).req.executionTimeout) x _
  | compileSlots =>
      exact stored_twice_iff (0 < ·) (fun call => (calls call).req.maxConcurrentCompilations) x _
  | gracePeriod =>
      exact stored_twice_iff (· ≠ 0) (fun call => (calls call).req.workflowGracePeriod) x _
  | endpoint =>
      show ((_, _) : Bytes × Bool) = (_, _) ↔ ¬ (_ ∨ _)
      rw [Prod.mk.injEq, sides fun call => (calls call).req.storageServiceURL,
        sides fun call => (calls call).req.storageServiceTLS, not_or, not_not, not_not]
  | storage =>
      show some _ = some _ ↔ ¬ _ ≠ _
      rw [Option.some_inj, sides fetcher, not_not]
  | dispatcher => exact iff_of_true rfl id

theorem concurrent_injections_serialisable_iff {a : WorkflowsApp φ}
    {calls : Bool → InjectCall φ} {fetcher : Bool → φ} {ls : List (Bool × InjectStep)}
    {s : TwoInjections φ} (started : ∀ call, (calls call).todo = InjectStep.order)
    (succeeds : ∀ call, (calls call).Succeeds (fetcher call))
    (run : Run TwoInjections.step anyStep ⟨a, calls⟩ ls s)
    (finished : ∀ call, (s.calls call).todo = []) :
    (∃ x, SameSettings (a.injectBoth calls x) s.app) ↔
      ∃ x, ∀ i, Conflict a calls fetcher i → Last x i ls := by
  have progress := progress_of_run succeeds run
  have merges : Merges InjectStep.order ls := by
    intro call
    rw [← started call, ← progress.taken call, finished call, List.append_nil]
  refine exists_congr fun x => ?_
  rw [sameSettings_iff, progress.registers, registers_injectBoth succeeds,
    foldl_eq_serial_iff merges InjectStep.nodup_order]
  simp only [put_comm_iff, InjectStep.mem_order, forall_true_left]
  refine forall_congr' fun i => ?_
  rw [or_iff_not_imp_right, not_not]

namespace Sample

/-- Both factories succeed; the storage fetcher is `n`. -/
def building (n : Nat) : Factories Nat where
  storage _ _ _ _ _ := .ok n
  dispatcher gateway := .ok ⟨gateway, EnclaveConfig.zero⟩

/-- The storage service moves from one endpoint to another. -/
def moving : Bool → InjectCall Nat
  | false =>
      .start (settings (ascii "00") (ascii "old:443") (ascii "https://gateway")) (building 0)
  | true =>
      .start (settings (ascii "00") (ascii "new:443") (ascii "https://gateway")) (building 1)

def fetcherOf : Bool → Nat
  | false => 0
  | true => 1

theorem moving_succeeds (call : Bool) : (moving call).Succeeds (fetcherOf call) := by
  cases call <;> exact ⟨rfl, rfl, _, rfl⟩

/-- The second call does each step right after the first has done it. -/
def followed : List (Bool × InjectStep) :=
  InjectStep.order.flatMap fun i => [(false, i), (true, i)]

/-- The second payload comes while the first call builds its storage fetcher. -/
def overtaken : List (Bool × InjectStep) :=
  (InjectStep.order.take 6).map (Prod.mk false) ++ InjectStep.order.map (Prod.mk true) ++
    (InjectStep.order.drop 6).map (Prod.mk false)

end Sample

theorem concurrent_injections_serialisable_two_moves :
    ∃ s, Run TwoInjections.step anyStep ⟨Sample.app, Sample.moving⟩ Sample.followed s ∧
      ∃ x, SameSettings (Sample.app.injectBoth Sample.moving x) s.app := by
  obtain ⟨s, run, first, second⟩ := Run.exists_of_exec
    (P := fun s : TwoInjections Nat => (s.calls false).todo = [] ∧ (s.calls true).todo = [])
    (show (exec TwoInjections.step anyStep ⟨Sample.app, Sample.moving⟩
      Sample.followed).any _ = true by decide)
  have finished : ∀ call, (s.calls call).todo = [] := Bool.forall_bool.mpr ⟨first, second⟩
  refine ⟨s, run, (concurrent_injections_serialisable_iff (fun call => by cases call <;> rfl)
    Sample.moving_succeeds run finished).mpr ⟨true, fun i _ => ?_⟩⟩
  cases i <;> decide

theorem concurrent_injections_mix :
    ∃ s, Run TwoInjections.step anyStep ⟨Sample.app, Sample.moving⟩ Sample.overtaken s ∧
      (∀ call, (s.calls call).todo = []) ∧
      ¬ ∃ x, SameSettings (Sample.app.injectBoth Sample.moving x) s.app := by
  obtain ⟨s, run, first, second, endpoint, fetcher⟩ := Run.exists_of_exec
    (P := fun s : TwoInjections Nat => (s.calls false).todo = [] ∧ (s.calls true).todo = [] ∧
      s.app.storageServiceURL = ascii "new:443" ∧ s.app.storageFetcher = some 0)
    (show (exec TwoInjections.step anyStep ⟨Sample.app, Sample.moving⟩
      Sample.overtaken).any _ = true by decide)
  refine ⟨s, run, Bool.forall_bool.mpr ⟨first, second⟩, ?_⟩
  rintro ⟨x, same⟩
  have sameEndpoint := same.storageServiceURL
  have sameFetcher := same.storageFetcher
  rw [endpoint] at sameEndpoint
  rw [fetcher] at sameFetcher
  cases x
  · exact absurd sameEndpoint (by decide)
  · exact absurd sameFetcher (by decide)

end ConfidentialCompute.Workflows
