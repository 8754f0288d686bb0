import PyHermit.Model

/-!
# Sessions

`session.rs`: a session runs one operation at a time on a tableau, each in a transaction
that ends with the permanent state restored or committed. The tableau is known by its
methods only (`NativeTableau`).

The control answers polls and memory observations. A program takes the answers as a
parameter and counts its questions; the answer of the i-th question is arbitrary. Threads
and panics are left out.
-/

open Std Prog

namespace PyHermit

open NativeError

/-! ## Control -/

/-- A tableau, and how often its control has been asked. -/
structure Controlled (κ : Type) where
  tableau : κ
  calls : Nat

abbrev ControlledM (κ : Type) := EStateM NativeError (Controlled κ)

def tableauLens {κ : Type} : Lens (Controlled κ) κ where
  get := (·.tableau)
  put s tableau := { s with tableau }

namespace OperationControl

variable {κ : Type} (control : OperationControl)

/-- Ask the control; the question's number is the count so far. -/
def question (answer : Nat → Except NativeError Unit) : ControlledM κ Unit := do
  let s ← get
  set { s with calls := s.calls + 1 }
  ask fun _ => answer s.calls

def askPoll : ControlledM κ Unit := question control.poll

def askMemory (bytes : Nat) : ControlledM κ Unit := question (control.observeMemory · bytes)

end OperationControl

/-! ## The tableau -/

inductive PhaseProgress where
  | noWork | progress
  deriving DecidableEq

structure DeltaPhaseResult where
  processedRows : Nat
  ruleMatches : Nat
  rolePropagations : Nat

structure DatatypePhaseResult where
  checkedComponents : Nat
  changed : Bool
  clashed : Bool

inductive ClashResolution where
  | backtracked | unsatisfiable

inductive ValidationStatus where
  | notRequired | valid | invalidated
  deriving DecidableEq

inductive OperationDisposition where
  | commitPermanent | rollbackQuery
  deriving DecidableEq

/-- What a session needs of a tableau. -/
structure NativeTableau (κ Query Checkpoint : Type) where
  estimatedMemoryBytes : κ → Except NativeError Nat
  operationCheckpoint : OperationControl → ControlledM κ Checkpoint
  installQuery : Query → OperationControl → ControlledM κ Unit
  finishOperation : Checkpoint → OperationDisposition → EStateM NativeError κ Unit
  resetToPermanent : EStateM NativeError κ Unit
  hasClash : κ → Bool
  processNominals : OperationControl → ControlledM κ Nat
  applyNextDelta : OperationControl → ControlledM κ DeltaPhaseResult
  checkDatatypes : OperationControl → ControlledM κ DatatypePhaseResult
  hasExistentialCandidates : κ → Bool
  refreshBlocking : OperationControl → ControlledM κ Nat
  processExistential : OperationControl → ControlledM κ PhaseProgress
  processDisjunction : OperationControl → ControlledM κ PhaseProgress
  resolveClash : OperationControl → ControlledM κ ClashResolution
  invalidateAfterBacktrack : EStateM NativeError κ Unit
  validateBlocking : OperationControl → ControlledM κ (ValidationStatus × Nat)
  readyForSat : κ → Except NativeError Bool
  checkInvariants : κ → Except NativeError Unit

/-! ## Statistics -/

structure SchedulerStatistics where
  schedulerSteps : Nat := 0
  deltaGenerations : Nat := 0
  deltaRows : Nat := 0
  ruleMatches : Nat := 0
  rolePropagations : Nat := 0
  nominalActions : Nat := 0
  existentialActions : Nat := 0
  disjunctionActions : Nat := 0
  datatypeComponents : Nat := 0
  blockingRefreshes : Nat := 0
  blockingChecks : Nat := 0
  validationPasses : Nat := 0
  backtracks : Nat := 0

def saturatingAdd (a b : Nat) : Nat := min (a + b) u64Max

def SchedulerStatistics.saturatingAdd (a b : SchedulerStatistics) : SchedulerStatistics where
  schedulerSteps := PyHermit.saturatingAdd a.schedulerSteps b.schedulerSteps
  deltaGenerations := PyHermit.saturatingAdd a.deltaGenerations b.deltaGenerations
  deltaRows := PyHermit.saturatingAdd a.deltaRows b.deltaRows
  ruleMatches := PyHermit.saturatingAdd a.ruleMatches b.ruleMatches
  rolePropagations := PyHermit.saturatingAdd a.rolePropagations b.rolePropagations
  nominalActions := PyHermit.saturatingAdd a.nominalActions b.nominalActions
  existentialActions := PyHermit.saturatingAdd a.existentialActions b.existentialActions
  disjunctionActions := PyHermit.saturatingAdd a.disjunctionActions b.disjunctionActions
  datatypeComponents := PyHermit.saturatingAdd a.datatypeComponents b.datatypeComponents
  blockingRefreshes := PyHermit.saturatingAdd a.blockingRefreshes b.blockingRefreshes
  blockingChecks := PyHermit.saturatingAdd a.blockingChecks b.blockingChecks
  validationPasses := PyHermit.saturatingAdd a.validationPasses b.validationPasses
  backtracks := PyHermit.saturatingAdd a.backtracks b.backtracks

structure SessionCheckResult where
  satisfiable : Bool
  cacheHit : Bool
  statistics : SchedulerStatistics

def SessionCheckResult.computed (satisfiable : Bool) (statistics : SchedulerStatistics) :
    SessionCheckResult := ⟨satisfiable, false, statistics⟩

def SessionCheckResult.cached (satisfiable : Bool) : SessionCheckResult := ⟨satisfiable, true, {}⟩

structure SessionLimits where
  maxSchedulerSteps : Nat
  maxBatchQueries : Nat
  maxBatchResultBytes : Nat
  maxEventQueue : Nat
  steps_pos : 0 < maxSchedulerSteps
  queries_pos : 0 < maxBatchQueries
  bytes_pos : 0 < maxBatchResultBytes
  events_two : 2 ≤ maxEventQueue

/-- `a.checked_add(b)` on `u64` counters. -/
def checkedAdd (a b : Nat) (overflow : String) : Except NativeError Nat :=
  if a + b ≤ u64Max then .ok (a + b) else .error (invariant overflow)

/-! ## The scheduler -/

section Drive

variable {κ Query Checkpoint : Type} (tableau : NativeTableau κ Query Checkpoint)
  (control : OperationControl)

def validateDelta (result : DeltaPhaseResult) : Except NativeError Unit :=
  ensure (result.processedRows = 0 → result.ruleMatches = 0 ∧ result.rolePropagations = 0)
    (invariant "delta phase reported consequences without a promoted row")

/-- One counter of the statistics goes up. -/
def count (field : SchedulerStatistics → Nat → SchedulerStatistics)
    (read : SchedulerStatistics → Nat)
    (amount : Nat) (overflow : String) (statistics : SchedulerStatistics) :
    ControlledM κ SchedulerStatistics := do
  let total ← ask fun _ => checkedAdd (read statistics) amount overflow
  return field statistics total

def countNominals (amount : Nat) : SchedulerStatistics → ControlledM κ SchedulerStatistics :=
  count (fun st n => { st with nominalActions := n }) (·.nominalActions) amount
    "nominal-action counter overflow"

def countChecks (amount : Nat) : SchedulerStatistics → ControlledM κ SchedulerStatistics :=
  count (fun st n => { st with blockingChecks := n }) (·.blockingChecks) amount
    "blocking-check counter overflow"

variable (statistics : SchedulerStatistics)

/-- The datatype phase with its bookkeeping. -/
def datatypePhase : ControlledM κ (DatatypePhaseResult × SchedulerStatistics) := do
  let datatypes ← tableau.checkDatatypes control
  let statistics ← count (fun st n => { st with datatypeComponents := n }) (·.datatypeComponents)
    datatypes.checkedComponents "datatype-component counter overflow" statistics
  ensure (datatypes.clashed = true → tableau.hasClash (← get).tableau = true)
    (invariant "datatype phase reported a clash without installing it in tableau state")
  return (datatypes, statistics)

/-- After a generation of rows: datatypes, then nominals. -/
def afterDelta : ControlledM κ SchedulerStatistics := do
  let statistics ← count (fun st n => { st with deltaGenerations := n }) (·.deltaGenerations) 1
    "delta-generation counter overflow" statistics
  let (_, statistics) ← datatypePhase tableau control statistics
  if tableau.hasClash (← get).tableau then return statistics
  else
    let actions ← tableau.processNominals control
    countNominals actions statistics

/-- Existentials, then disjunctions; `true` if one of them had work. -/
def expansionPhase : ControlledM κ (Bool × SchedulerStatistics) := do
  let statistics ←
    if tableau.hasExistentialCandidates (← get).tableau then do
      let statistics ← count (fun st n => { st with blockingRefreshes := n })
        (·.blockingRefreshes) 1 "blocking-refresh counter overflow" statistics
      let checks ← tableau.refreshBlocking control
      countChecks checks statistics
    else pure statistics
  if (← tableau.processExistential control) = .progress then
    let statistics ← count (fun st n => { st with existentialActions := n })
      (·.existentialActions) 1 "existential-action counter overflow" statistics
    return (true, statistics)
  else if (← tableau.processDisjunction control) = .progress then
    let statistics ← count (fun st n => { st with disjunctionActions := n })
      (·.disjunctionActions) 1 "disjunction-action counter overflow" statistics
    return (true, statistics)
  else return (false, statistics)

/-- The phases of a round without a clash; `true` if the round ends with them. -/
def forwardPhases : ControlledM κ (Bool × SchedulerStatistics) := do
  let nominalActions ← tableau.processNominals control
  let statistics ← countNominals nominalActions statistics
  if nominalActions ≠ 0 then return (true, statistics)
  else
    let delta ← tableau.applyNextDelta control
    ask fun _ => validateDelta delta
    let statistics ← count (fun st n => { st with deltaRows := n })
      (·.deltaRows) delta.processedRows "delta-row counter overflow" statistics
    let statistics ← count (fun st n => { st with ruleMatches := n })
      (·.ruleMatches) delta.ruleMatches "rule-match counter overflow" statistics
    let statistics ← count (fun st n => { st with rolePropagations := n }) (·.rolePropagations)
      delta.rolePropagations "role-propagation counter overflow" statistics
    if delta.processedRows ≠ 0 then
      let statistics ← afterDelta tableau control statistics
      return (true, statistics)
    else
      let (datatypes, statistics) ← datatypePhase tableau control statistics
      if datatypes.changed || datatypes.clashed then return (true, statistics)
      else expansionPhase tableau control statistics

/-- A clash: go back to a choice, or the answer is no. -/
def clashPhase : ControlledM κ (Option SessionCheckResult × SchedulerStatistics) := do
  match ← tableau.resolveClash control with
  | .unsatisfiable =>
    ask fun s => tableau.checkInvariants s.tableau
    return (some (.computed false statistics), statistics)
  | .backtracked =>
    zoom tableauLens tableau.invalidateAfterBacktrack
    let statistics ← count (fun st n => { st with backtracks := n }) (·.backtracks) 1
      "backtrack counter overflow" statistics
    return (none, statistics)

/-- Nothing left to do: validate the blocks, and the answer is yes. -/
def validationPhase : ControlledM κ (Option SessionCheckResult × SchedulerStatistics) := do
  let (validation, checks) ← tableau.validateBlocking control
  let statistics ← countChecks checks statistics
  let statistics ←
    if validation = .notRequired then pure statistics
    else
      count (fun st n => { st with validationPasses := n }) (·.validationPasses) 1
        "validation-pass counter overflow" statistics
  if validation = .invalidated then return (none, statistics)
  else
    let ready ← ask fun s => tableau.readyForSat s.tableau
    ensure (ready = true)
      (invariant "native scheduler reached SAT with pending or unvalidated work")
    ask fun s => tableau.checkInvariants s.tableau
    return (some (.computed true statistics), statistics)

/-- One round of the scheduler. -/
def driveRound (maxSteps : Nat) (statistics : SchedulerStatistics) :
    ControlledM κ (Option SessionCheckResult × SchedulerStatistics) := do
  control.askPoll
  let statistics ← count (fun st n => { st with schedulerSteps := n }) (·.schedulerSteps) 1
    "scheduler-step counter overflow" statistics
  ensure (statistics.schedulerSteps ≤ maxSteps)
    (resourceLimit "native tableau scheduler step limit exceeded" "max_scheduler_steps"
      statistics.schedulerSteps maxSteps)
  let (ended, statistics) ←
    if tableau.hasClash (← get).tableau then pure (false, statistics)
    else forwardPhases tableau control statistics
  if ended then return (none, statistics)
  else if tableau.hasClash (← get).tableau then clashPhase tableau control statistics
  else validationPhase tableau control statistics

/-- The rounds of `drive_tableau`. Each counts one step against the limit, so there are at
most one more of them than the limit allows. -/
def driveRounds (maxSteps : Nat) : Nat → SchedulerStatistics → ControlledM κ SessionCheckResult
  | 0, _ => throw (invariant "the scheduler loop did not end")
  | fuel + 1, statistics => do
    match ← driveRound tableau control maxSteps statistics with
    | (some result, _) => return result
    | (none, statistics) => driveRounds maxSteps fuel statistics

def driveTableau (maxSteps : Nat) : ControlledM κ SessionCheckResult :=
  driveRounds tableau control maxSteps (maxSteps + 1) {}

end Drive

/-! ## Sessions -/

structure SessionQuery (Query : Type) where
  key : List Nat
  payload : Query

inductive SessionOperationKind where
  | permanentCheck | queryCheck | batchCheck | resetQueryState

inductive SessionEventKind where
  | operationStarted | checkCompleted | queryStateReset | operationCompleted | operationAborted

structure SessionEvent where
  sequence : Nat
  operationId : Nat
  operation : SessionOperationKind
  kind : SessionEventKind
  completed : Nat
  total : Nat
  queryKey : Option (List Nat) := none
  satisfiable : Option Bool := none
  errorCode : Option String := none

structure SessionStatistics where
  operationsStarted : Nat := 0
  operationsCompleted : Nat := 0
  operationsAborted : Nat := 0
  permanentChecks : Nat := 0
  queryChecks : Nat := 0
  batchCalls : Nat := 0
  resets : Nat := 0
  cacheHits : Nat := 0
  scheduler : SchedulerStatistics := {}

structure OperationContext where
  id : Nat
  kind : SessionOperationKind
  total : Nat

structure CompletedCheck where
  queryKey : Option (List Nat)
  result : SessionCheckResult

structure OperationRecord where
  permanentChecks : Nat := 0
  queryChecks : Nat := 0
  batchCalls : Nat := 0
  resets : Nat := 0
  cacheHits : Nat := 0
  scheduler : SchedulerStatistics := {}

def SessionStatistics.completed (statistics : SessionStatistics) (record : OperationRecord) :
    SessionStatistics where
  operationsStarted := statistics.operationsStarted
  operationsCompleted := saturatingAdd statistics.operationsCompleted 1
  operationsAborted := statistics.operationsAborted
  permanentChecks := saturatingAdd statistics.permanentChecks record.permanentChecks
  queryChecks := saturatingAdd statistics.queryChecks record.queryChecks
  batchCalls := saturatingAdd statistics.batchCalls record.batchCalls
  resets := saturatingAdd statistics.resets record.resets
  cacheHits := saturatingAdd statistics.cacheHits record.cacheHits
  scheduler := statistics.scheduler.saturatingAdd record.scheduler

/-- A session with the tableau it owns. -/
structure Session (κ : Type) where
  controlled : Controlled κ
  poisoned : Bool
  closed : Bool
  permanentSatisfiable : Option Bool
  statistics : SessionStatistics
  events : List SessionEvent
  droppedEvents : Nat
  nextOperationId : Nat
  nextEventSequence : Nat

def Session.new {κ : Type} (tableau : κ) : Session κ where
  controlled := ⟨tableau, 0⟩
  poisoned := false
  closed := false
  permanentSatisfiable := none
  statistics := {}
  events := []
  droppedEvents := 0
  nextOperationId := 1
  nextEventSequence := 1

abbrev SessionM (κ : Type) := EStateM NativeError (Session κ)

def controlledLens {κ : Type} : Lens (Session κ) (Controlled κ) where
  get := (·.controlled)
  put s controlled := { s with controlled }

def poisonedError (code message : String) : NativeError := { kind := .poisoned, code, message }

def disposedError : NativeError :=
  { kind := .disposed, code := "DISPOSED_REASONER", message := "native session is closed" }

/-- Errors of these kinds poison the session. -/
def poisons (e : NativeError) : Bool := e.kind = .invariant || e.kind = .poisoned

namespace Session

variable {κ Query Checkpoint : Type}

/-! ### Bookkeeping -/

def startOperation (kind : SessionOperationKind) (total : Nat) : SessionM κ OperationContext := do
  let s ← get
  let _ ← ask fun _ => checkedAdd s.nextEventSequence (total + 2) "native event sequence overflow"
  let next ← ask fun _ => increment64 s.nextOperationId "native operation ID overflow"
  modify fun s => { s with
    nextOperationId := next
    statistics := { s.statistics with
      operationsStarted := saturatingAdd s.statistics.operationsStarted 1 } }
  return ⟨s.nextOperationId, kind, total⟩

def pushEvent (capacity : Nat) (event : SessionEvent) : SessionM κ Unit := do
  let s ← get
  let next ← ask fun _ => increment64 s.nextEventSequence "native event sequence overflow"
  let event := { event with sequence := s.nextEventSequence }
  if s.events.length = capacity then
    set { s with
      nextEventSequence := next
      events := s.events.drop 1 ++ [event]
      droppedEvents := saturatingAdd s.droppedEvents 1 }
  else set { s with nextEventSequence := next, events := s.events ++ [event] }

def OperationContext.event (context : OperationContext) (kind : SessionEventKind)
    (completed : Nat) : SessionEvent :=
  { sequence := 0, operationId := context.id, operation := context.kind, kind, completed
    total := context.total }

def completeOperation (context : OperationContext) (record : OperationRecord)
    (checks : List CompletedCheck) (capacity : Nat) : SessionM κ Unit := do
  ensure (checks.length ≤ u32Max → checks.length ≤ context.total)
    (invariant "operation produced more check events than its declared total")
  pushEvent capacity (OperationContext.event context .operationStarted 0)
  checks.zipIdx.forM fun (check, offset) =>
    pushEvent capacity { OperationContext.event context .checkCompleted
      (min (offset + 1) u32Max) with
      queryKey := check.queryKey, satisfiable := some check.result.satisfiable }
  if record.resets ≠ 0 then
    pushEvent capacity (OperationContext.event context .queryStateReset context.total)
  else pure ()
  pushEvent capacity (OperationContext.event context .operationCompleted context.total)
  modify fun s => { s with statistics := s.statistics.completed record }

/-- `abort`: note that the operation failed, and fail. -/
def abort {α : Type} (context : OperationContext) (e : NativeError) (capacity : Nat) :
    SessionM κ α := do
  pushEvent capacity (OperationContext.event context .operationStarted 0)
  pushEvent capacity { OperationContext.event context .operationAborted 0 with
    errorCode := some e.code }
  modify fun s => { s with
    statistics := { s.statistics with
      operationsAborted := saturatingAdd s.statistics.operationsAborted 1 } }
  throw e

/-- Run `m`, and go on with its outcome whether it returned or failed. -/
def attempt {α : Type} (m : SessionM κ α) : SessionM κ (Except NativeError α) := fun s =>
  match m s with
  | .ok a s' => .ok (.ok a) s'
  | .error e s' => .ok (.error e) s'

def poison : SessionM κ Unit := modify fun s => { s with poisoned := true }

/-- Run `m`; an error that says so poisons the session. -/
def poisoning {α : Type} (m : SessionM κ α) : SessionM κ α := do
  match ← attempt m with
  | .ok a => return a
  | .error e => do
    if poisons e then poison else pure ()
    throw e

def onTableau {α : Type} (m : ControlledM κ α) : SessionM κ α := zoom controlledLens m

/-- A method that does not see the control. -/
def onKernel {α : Type} (m : EStateM NativeError κ α) : SessionM κ α :=
  onTableau (zoom tableauLens m)

def controlledPoll (control : OperationControl) : SessionM κ Unit :=
  poisoning (onTableau control.askPoll)

def controlledObserve (control : OperationControl) (bytes : Nat) : SessionM κ Unit :=
  poisoning (onTableau (control.askMemory bytes))

section

variable (tableau : NativeTableau κ Query Checkpoint) (limits : SessionLimits)

/-! ### Transactions -/

/-- `recover`: roll the operation back after it failed with `original`. -/
def recover {α : Type} (checkpoint : Checkpoint) (original : NativeError) : SessionM κ α := do
  match ← attempt (onKernel (tableau.finishOperation checkpoint .rollbackQuery)) with
  | .error rollback =>
    poison
    throw (poisonedError "NATIVE_RECOVERY_FAILED"
      ("native operation recovery failed after " ++ original.code ++ ": " ++ rollback.code))
  | .ok _ =>
    match ← attempt (ask fun s => tableau.checkInvariants s.controlled.tableau) with
    | .error e =>
      poison
      throw (poisonedError "NATIVE_RECOVERY_INVARIANT_FAILED"
        ("native recovery after " ++ original.code ++ " restored invalid state: " ++ e.code))
    | .ok _ =>
      if poisons original then poison else pure ()
      throw original

/-- What a transaction does between its checkpoint and its end. -/
def transactionBody (query : Option (SessionQuery Query)) (control : OperationControl) :
    SessionM κ SessionCheckResult := do
  match query with
  | some query => onTableau (tableau.installQuery query.payload control)
  | none => pure ()
  let result ← onTableau (driveTableau tableau control limits.maxSchedulerSteps)
  onTableau control.askPoll
  ask fun s => tableau.checkInvariants s.controlled.tableau
  return result

/-- End a transaction that went well. -/
def finishTransaction (checkpoint : Checkpoint) (disposition : OperationDisposition) :
    SessionM κ Unit := do
  match ← attempt (onKernel (tableau.finishOperation checkpoint disposition)) with
  | .error e =>
    poison
    throw (poisonedError "NATIVE_OPERATION_FINISH_FAILED"
      ("native operation could not establish a safe committed root: " ++ e.code ++ " (" ++
        e.message ++ ")"))
  | .ok _ =>
    match ← attempt (ask fun s => tableau.checkInvariants s.controlled.tableau) with
    | .error e =>
      poison
      throw (poisonedError "NATIVE_OPERATION_INVARIANT_FAILED"
        ("native operation finalized with invalid state: " ++ e.code))
    | .ok _ => return ()

def runTransaction (query : Option (SessionQuery Query)) (disposition : OperationDisposition)
    (control : OperationControl) : SessionM κ SessionCheckResult := do
  controlledPoll control
  let bytes ← poisoning (ask fun s => tableau.estimatedMemoryBytes s.controlled.tableau)
  controlledObserve control bytes
  let checkpoint ← poisoning (onTableau (tableau.operationCheckpoint control))
  match ← attempt (transactionBody tableau limits query control) with
  | .error e => recover tableau checkpoint e
  | .ok result =>
    finishTransaction tableau checkpoint disposition
    return result

/-! ### Operations -/

/-- `preflight`: an operation needs an open, healthy session. It gets a control of its own,
so its questions are counted from zero. -/
def preflight : SessionM κ Unit := do
  let s ← get
  ensure (s.closed = false) disposedError
  ensure (s.poisoned = false)
    (poisonedError "NATIVE_SESSION_POISONED"
      "native session is poisoned and only close is permitted")
  set { s with controlled := { s.controlled with calls := 0 } }

def checkPermanent (control : OperationControl) : SessionM κ SessionCheckResult := do
  preflight
  let context ← startOperation .permanentCheck 1
  let outcome ← attempt do
    match (← get).permanentSatisfiable with
    | some satisfiable =>
      controlledPoll control
      return SessionCheckResult.cached satisfiable
    | none => runTransaction tableau limits none .commitPermanent control
  match outcome with
  | .error e => abort context e limits.maxEventQueue
  | .ok result =>
    completeOperation context
      { permanentChecks := 1, cacheHits := result.cacheHit.toNat, scheduler := result.statistics }
      [⟨none, result⟩] limits.maxEventQueue
    if result.cacheHit then pure ()
    else modify fun s => { s with permanentSatisfiable := some result.satisfiable }
    return result

/-- The answer for one query, without a run if the permanent state is unsatisfiable. -/
def answerQuery (query : SessionQuery Query) (control : OperationControl)
    (cached : SessionM κ Unit) : SessionM κ SessionCheckResult := do
  if (← get).permanentSatisfiable = some false then
    cached
    return SessionCheckResult.cached false
  else runTransaction tableau limits (some query) .rollbackQuery control

def checkQuery (query : SessionQuery Query) (control : OperationControl) :
    SessionM κ SessionCheckResult := do
  preflight
  let context ← startOperation .queryCheck 1
  match ← attempt (answerQuery tableau limits query control (controlledPoll control)) with
  | .error e => abort context e limits.maxEventQueue
  | .ok result =>
    completeOperation context
      { queryChecks := 1, cacheHits := result.cacheHit.toNat, scheduler := result.statistics }
      [⟨some query.key, result⟩] limits.maxEventQueue
    return result

/-- The loop of `run_batch`. -/
def batchLoop (control : OperationControl) :
    List (SessionQuery Query) → SessionM κ (List CompletedCheck)
  | [] => return []
  | query :: rest => do
    controlledPoll control
    let result ← answerQuery tableau limits query control (pure ())
    let checks ← batchLoop control rest
    return ⟨some query.key, result⟩ :: checks

/-- What `run_batch` checks before its first query; `itemBytes` is the size of a result
with its check. -/
def prepareBatch (itemBytes queryCount : Nat) (control : OperationControl) : SessionM κ Unit := do
  ensure (queryCount ≤ limits.maxBatchQueries)
    (resourceLimit "native query batch exceeds the configured item limit" "max_batch_queries"
      queryCount limits.maxBatchQueries)
  let resultBytes := queryCount * itemBytes
  ensure (resultBytes ≤ u64Max) (invariant "native batch result-size overflow")
  ensure (resultBytes ≤ limits.maxBatchResultBytes)
    (resourceLimit "native query batch result staging exceeds its byte limit"
      "max_batch_result_bytes" resultBytes limits.maxBatchResultBytes)
  let kernelBytes ← poisoning (ask fun s => tableau.estimatedMemoryBytes s.controlled.tableau)
  controlledObserve control (saturatingAdd kernelBytes resultBytes)
  controlledPoll control

def runBatch (itemBytes : Nat) (queries : List (SessionQuery Query)) (control : OperationControl) :
    SessionM κ (List CompletedCheck × OperationRecord) := do
  prepareBatch tableau limits itemBytes queries.length control
  let checks ← batchLoop tableau limits control queries
  controlledPoll control
  let scheduler := checks.foldl (fun total check => total.saturatingAdd check.result.statistics) {}
  let cacheHits := checks.foldl (fun total check =>
    saturatingAdd total check.result.cacheHit.toNat) 0
  return (checks, { queryChecks := queries.length, batchCalls := 1, cacheHits, scheduler })

def checkMany (itemBytes : Nat) (queries : List (SessionQuery Query)) (control : OperationControl) :
    SessionM κ (List SessionCheckResult) := do
  preflight
  let context ← startOperation .batchCheck (min queries.length u32Max)
  match ← attempt (runBatch tableau limits itemBytes queries control) with
  | .error e => abort context e limits.maxEventQueue
  | .ok (checks, record) =>
    completeOperation context record checks limits.maxEventQueue
    return checks.map (·.result)

def resetQueryState : SessionM κ Unit := do
  preflight
  let context ← startOperation .resetQueryState 1
  let outcome ← attempt do
    onKernel tableau.resetToPermanent
    ask fun s => tableau.checkInvariants s.controlled.tableau
  match outcome with
  | .error e =>
    poison
    abort context e limits.maxEventQueue
  | .ok _ => completeOperation context { resets := 1 } [] limits.maxEventQueue

end

end Session

/-- The calls of a session that reach its tableau. -/
inductive SessionOp (Query : Type) where
  | checkPermanent (control : OperationControl)
  | checkQuery (query : SessionQuery Query) (control : OperationControl)
  | checkMany (itemBytes : Nat) (queries : List (SessionQuery Query)) (control : OperationControl)
  | resetQueryState

def SessionOp.run {κ Query Checkpoint : Type} (tableau : NativeTableau κ Query Checkpoint)
    (limits : SessionLimits) : SessionOp Query → SessionM κ Unit
  | checkPermanent control => discard (Session.checkPermanent tableau limits control)
  | checkQuery query control => discard (Session.checkQuery tableau limits query control)
  | checkMany itemBytes queries control =>
    discard (Session.checkMany tableau limits itemBytes queries control)
  | resetQueryState => Session.resetQueryState tableau limits

end PyHermit
