import PyHermit.Engine.Rules
import PyHermit.Session.Scheduler

/-!
# The production tableau

`native_tableau.rs`, and the checkpoint registry of `rules/engine.rs`. A loaded rule state
is a kernel, an engine and the managers around them; the tableau has a permanent one and,
while a query runs, a second one for the query.

The engine keeps the snapshots of operations in a bounded registry and hands out tokens,
which are given back by rolling back or releasing. The phases of the scheduler do not have
the registry in reach, and here their type says so.
-/

open Std Prog

namespace PyHermit

open NativeError TableauKernel

/-! ## Checkpoints of the engine -/

structure RuleCheckpointLimits where
  maxCheckpoints : Nat
  maxTotalCheckpointBytes : Nat
  checkpoints_pos : 0 < maxCheckpoints
  bytes_pos : 0 < maxTotalCheckpointBytes

/-- An opaque, owner-bound, one-shot token. -/
structure RuleEngineCheckpoint where
  owner : Nat
  sequence : Nat

/-- What the engine saves of itself. -/
structure RuleEngineMutableSnapshot where
  atomIds : ExtTreeMap GroundAtom Nat
  atoms : List GroundAtom
  disjunctionKeys : ExtTreeMap (List GroundAtom) Nat
  initialized : Bool

structure StoredRuleCheckpoint where
  snapshot : RuleEngineMutableSnapshot
  estimatedBytes : Nat

structure CheckpointRegistry where
  owner : Nat
  nextSequence : Nat
  limits : RuleCheckpointLimits
  checkpointBytes : Nat
  checkpoints : ExtTreeMap Nat StoredRuleCheckpoint

def CheckpointRegistry.new (owner : Nat) (limits : RuleCheckpointLimits) : CheckpointRegistry :=
  ⟨owner, 1, limits, 0, ∅⟩

/-- The atom registry is a bijection between atoms and their places. -/
def validateMutableState (atomIds : ExtTreeMap GroundAtom Nat) (atoms : List GroundAtom) :
    Except NativeError Unit := do
  ensure (atomIds.size = atoms.length)
    (invariant "rule atom registry maps and vectors have different lengths")
  atoms.zipIdx.forM fun (atom, index) => do
    ensure (index ≤ u32Max) (invariant "rule atom registry exceeds u32")
    ensure (atomIds[atom]? = some index)
      (invariant "rule atom registry is not a canonical bijection")

/-- `size_of` of the types the estimates mention. -/
structure Layout where
  storedEntry : Nat
  atomEntry : Nat
  atom : Nat
  handle : Nat
  keyEntry : Nat
  /-- The estimate of everything else a loaded rule state owns. -/
  estimate : RuleState → Except NativeError Nat

namespace Layout

variable (layout : Layout)

def allocationBytes (element count : Nat) : Except NativeError Nat := do
  ensure (count * element ≤ u64Max) (invariant "rule snapshot allocation estimate overflow")
  return count * element

def btreeAllocationBytes (entry count : Nat) : Except NativeError Nat := do
  if count = 0 then return 0
  else
    let entryBytes ← allocationBytes entry count
    ensure (count * 256 ≤ u64Max) (invariant "rule snapshot tree overhead estimate overflow")
    checkedAdd entryBytes (count * 256) "rule snapshot tree estimate overflow"

def vectorAllocationBytes (element count : Nat) : Except NativeError Nat := do
  if count = 0 then return 0
  else
    let bytes ← allocationBytes element count
    checkedAdd bytes 64 "rule snapshot vector estimate overflow"

def estimateSum (amounts : List (Except NativeError Nat)) : Except NativeError Nat :=
  amounts.foldlM (fun total amount => do
    let amount ← amount
    checkedAdd total amount "rule snapshot byte estimate overflow") 0

/-- `estimate_snapshot_bytes`, its amounts in the order of the source. -/
def estimateSnapshotBytes (r : RuleState) : Except NativeError Nat :=
  let arguments := fun atom : GroundAtom =>
    vectorAllocationBytes layout.handle atom.arguments.length
  estimateSum ([btreeAllocationBytes layout.storedEntry 1,
    btreeAllocationBytes layout.atomEntry r.atomIds.size] ++ r.atomIds.keys.map arguments ++
    [vectorAllocationBytes layout.atom r.atoms.length] ++ r.atoms.map arguments ++
    [btreeAllocationBytes layout.keyEntry r.disjunctionKeys.size] ++
    r.disjunctionKeys.keys.flatMap fun atoms =>
      vectorAllocationBytes layout.atom atoms.length :: atoms.map arguments)

end Layout

namespace CheckpointRegistry

variable (registry : CheckpointRegistry)

def storedBytes (checkpoints : ExtTreeMap Nat StoredRuleCheckpoint) : Nat :=
  (checkpoints.toList.map (·.2.estimatedBytes)).sum

def check : Except NativeError Unit := do
  let bytes ← registry.checkpoints.toList.foldlM (fun bytes (sequence, stored) => do
    ensure (sequence < registry.nextSequence)
      (invariant "active rule checkpoint is outside the issued sequence")
    checkedAdd bytes stored.estimatedBytes "active rule checkpoint byte counter overflow") 0
  ensure (bytes = registry.checkpointBytes)
    (invariant "active rule checkpoint byte accounting is inconsistent")
  ensure (registry.checkpoints.size ≤ registry.limits.maxCheckpoints)
    (invariant "active rule checkpoint count exceeds its configured bound")
  ensure (bytes ≤ registry.limits.maxTotalCheckpointBytes)
    (invariant "active rule checkpoint bytes exceed their configured bound")

def validate (checkpoint : RuleEngineCheckpoint) : Except NativeError Unit := do
  ensure (checkpoint.owner = registry.owner) (wire "rule checkpoint belongs to a different engine")
  registry.check
  match registry.checkpoints[checkpoint.sequence]? with
  | none => .error (wire "rule checkpoint is stale or already consumed")
  | some stored => validateMutableState stored.snapshot.atomIds stored.snapshot.atoms

/-- `consume_rollback`: the snapshot goes, and with it everything issued later. -/
def consumeRollback (sequence : Nat) :
    Except NativeError (RuleEngineMutableSnapshot × CheckpointRegistry) :=
  match registry.checkpoints[sequence]? with
  | none => .error (invariant "validated rule checkpoint disappeared")
  | some selected =>
    let checkpoints := (registry.checkpoints.erase sequence).filter fun candidate _ =>
      candidate < sequence
    .ok (selected.snapshot, { registry with
      checkpoints, checkpointBytes := storedBytes checkpoints })

def release (checkpoint : RuleEngineCheckpoint) : Except NativeError CheckpointRegistry := do
  registry.validate checkpoint
  match registry.checkpoints[checkpoint.sequence]? with
  | none => .error (invariant "validated rule checkpoint disappeared")
  | some stored => .ok { registry with
      checkpoints := registry.checkpoints.erase checkpoint.sequence
      checkpointBytes := registry.checkpointBytes - stored.estimatedBytes }

end CheckpointRegistry

/-! ## The tableau -/

/-- What the phases work on: kernel, engine and managers. -/
structure ActiveState (ω : Type) where
  engine : RuleEngine
  rules : RuleState
  managers : ω

structure LoadedRuleState (ω : Type) where
  active : ActiveState ω
  registry : CheckpointRegistry

structure ProductionTableau (ω : Type) where
  permanent : LoadedRuleState ω
  query : Option (LoadedRuleState ω)

/-- `σ` is what is saved of the managers: nominals, blocking and the datatype signature. -/
structure ProductionCheckpoint (σ : Type) where
  kernel : TableauKernel
  engine : RuleEngineCheckpoint
  managers : σ

/-- The managers around a kernel and the phases of the scheduler that run them. -/
structure Runtime (ω σ Query : Type) where
  layout : Layout
  saveManagers : ω → σ
  restoreManagers : ω → σ → ω
  checkManagers : ω → Except NativeError Unit
  /-- The checks on a query before it is loaded: digest, ontology, rebuild. -/
  admitQuery : Query → Except NativeError Unit
  /-- The ontology with the query's overlay, loaded. -/
  loadQuery : Query → Except NativeError (LoadedRuleState ω)
  processNominals : OperationControl → ControlledM (ActiveState ω) Nat
  applyNextDelta : OperationControl → ControlledM (ActiveState ω) DeltaPhaseResult
  checkDatatypes : OperationControl → ControlledM (ActiveState ω) DatatypePhaseResult
  refreshBlocking : OperationControl → ControlledM (ActiveState ω) Nat
  processExistential : OperationControl → ControlledM (ActiveState ω) PhaseProgress
  processDisjunction : OperationControl → ControlledM (ActiveState ω) PhaseProgress
  resolveClash : OperationControl → ControlledM (ActiveState ω) ClashResolution
  invalidateAfterBacktrack : EStateM NativeError (ActiveState ω) Unit
  validateBlocking : OperationControl → ControlledM (ActiveState ω) (ValidationStatus × Nat)
  readyForSat : ActiveState ω → Except NativeError Bool

namespace ProductionTableau

variable {ω σ Query : Type}

/-- The state the phases work on: the query's, if there is one. -/
def activeLens : Lens (ProductionTableau ω) (ActiveState ω) where
  get t := (t.query.getD t.permanent).active
  put t active :=
    match t.query with
    | some loaded => { t with query := some { loaded with active } }
    | none => { t with permanent := { t.permanent with active } }
  get_put t active := by cases h : t.query <;> simp
  put_get t := by
    obtain ⟨permanent, query⟩ := t
    cases query <;> rfl
  put_put t a b := by
    obtain ⟨permanent, query⟩ := t
    cases query <;> rfl

/-- The lens under the control's count. -/
def controlledActive : Lens (Controlled (ProductionTableau ω)) (Controlled (ActiveState ω)) where
  get s := ⟨activeLens.get s.tableau, s.calls⟩
  put s c := ⟨activeLens.put s.tableau c.tableau, c.calls⟩
  get_put s c := by rw [activeLens.get_put]
  put_get s := by rw [activeLens.put_get]
  put_put s a b := by rw [activeLens.put_put]

section

variable (runtime : Runtime ω σ Query)

/-- `RuleEngine::checkpoint` on the permanent state. -/
def engineCheckpoint (control : OperationControl) :
    ControlledM (ProductionTableau ω) RuleEngineCheckpoint := do
  control.askPoll
  let loaded := (← get).tableau.permanent
  let registry := loaded.registry
  let rules := loaded.active.rules
  ask fun _ => registry.check
  ask fun _ => validateMutableState rules.atomIds rules.atoms
  ensure (registry.checkpoints.size + 1 ≤ registry.limits.maxCheckpoints)
    (resourceLimit "rule checkpoint count limit exceeded" "max_checkpoints"
      (registry.checkpoints.size + 1) registry.limits.maxCheckpoints)
  let estimated ← ask fun _ => runtime.layout.estimateSnapshotBytes rules
  let observed ← ask fun _ =>
    checkedAdd registry.checkpointBytes estimated "rule checkpoint byte counter overflow"
  ensure (observed ≤ registry.limits.maxTotalCheckpointBytes)
    (resourceLimit "rule checkpoint memory limit exceeded" "max_total_checkpoint_bytes" observed
      registry.limits.maxTotalCheckpointBytes)
  control.askMemory observed
  let sequence := registry.nextSequence
  let next ← ask fun _ => increment64 sequence "rule checkpoint sequence exhausted"
  ensure (registry.checkpoints[sequence]?.isNone = true)
    (invariant "rule checkpoint sequence is already active")
  control.askPoll
  let snapshot : RuleEngineMutableSnapshot :=
    ⟨rules.atomIds, rules.atoms, rules.disjunctionKeys, rules.initialized⟩
  modify fun s => { s with tableau := { s.tableau with permanent := { s.tableau.permanent with
    registry := { registry with
      checkpoints := registry.checkpoints.insert sequence ⟨snapshot, estimated⟩
      checkpointBytes := observed
      nextSequence := next } } } }
  return ⟨registry.owner, sequence⟩

def operationCheckpoint (control : OperationControl) :
    ControlledM (ProductionTableau ω) (ProductionCheckpoint σ) := do
  ensure ((← get).tableau.query.isNone = true)
    (invariant "query state survived into a new native operation")
  control.askPoll
  let active := (← get).tableau.permanent.active
  let engine ← engineCheckpoint runtime control
  control.askPoll
  return ⟨active.rules.kernel, engine, runtime.saveManagers active.managers⟩

def installQuery (query : Query) (control : OperationControl) :
    ControlledM (ProductionTableau ω) Unit := do
  ask fun _ => runtime.admitQuery query
  control.askPoll
  let loaded ← ask fun _ => runtime.loadQuery query
  control.askPoll
  modify fun s => { s with tableau := { s.tableau with query := some loaded } }

/-- `restore_permanent_checkpoint`: engine and kernel, then the managers. -/
def restorePermanentCheckpoint (checkpoint : ProductionCheckpoint σ) :
    EStateM NativeError (ProductionTableau ω) Unit := do
  let loaded := (← get).permanent
  ask fun _ => loaded.registry.validate checkpoint.engine
  ask fun _ => checkpoint.kernel.checkInvariants
  let (snapshot, registry) ← ask fun _ => loaded.registry.consumeRollback checkpoint.engine.sequence
  let rules := loaded.active.rules
  modify fun t => { t with permanent :=
    { registry
      active :=
        { engine := loaded.active.engine
          rules := { rules with
            atomIds := snapshot.atomIds
            atoms := snapshot.atoms
            disjunctionKeys := snapshot.disjunctionKeys
            initialized := snapshot.initialized
            polled := { rules.polled with
              kernel := rules.kernel.restoreFullCheckpoint checkpoint.kernel } }
          managers := runtime.restoreManagers loaded.active.managers checkpoint.managers } } }

def permanentKernelLens : Lens (ProductionTableau ω) TableauKernel where
  get t := t.permanent.active.rules.kernel
  put t kernel := { t with permanent := { t.permanent with active := { t.permanent.active with
    rules := { t.permanent.active.rules with
      polled := { t.permanent.active.rules.polled with kernel } } } } }

def finishOperation (checkpoint : ProductionCheckpoint σ) (disposition : OperationDisposition) :
    EStateM NativeError (ProductionTableau ω) Unit := do
  let hadQuery := (← get).query.isSome
  modify fun t => { t with query := none }
  ensure (¬ (hadQuery = true ∧ disposition = .commitPermanent))
    (invariant "query tableau cannot be committed as the permanent root")
  match disposition with
  | .rollbackQuery => restorePermanentCheckpoint runtime checkpoint
  | .commitPermanent =>
    let loaded := (← get).permanent
    if loaded.active.rules.kernel.branches ≠ [] then restorePermanentCheckpoint runtime checkpoint
    else
      let registry ← ask fun _ => loaded.registry.release checkpoint.engine
      modify fun t => { t with permanent := { t.permanent with registry } }
      zoom permanentKernelLens beginOperation

def checkEngine (loaded : LoadedRuleState ω) : Except NativeError Unit := do
  loaded.registry.check
  validateMutableState loaded.active.rules.atomIds loaded.active.rules.atoms
  validateNodeMaps loaded.active.rules.kernel.state.nodes loaded.active.engine.sourceNodes
    loaded.active.engine.dataNodes
  ensure (loaded.active.rules.initialized = true)
    (invariant "production rule engine is not initialized")

def resetToPermanent : EStateM NativeError (ProductionTableau ω) Unit := do
  modify fun t => { t with query := none }
  ask fun t => t.permanent.active.rules.kernel.checkInvariants
  ask fun t => checkEngine t.permanent

def checkInvariants (t : ProductionTableau ω) : Except NativeError Unit := do
  let loaded := t.query.getD t.permanent
  loaded.active.rules.kernel.checkInvariants
  checkEngine loaded
  runtime.checkManagers loaded.active.managers

/-- The kernel and the engine, with the registry's bytes. -/
def estimatedMemoryBytes (t : ProductionTableau ω) : Except NativeError Nat := do
  let loaded := t.query.getD t.permanent
  let bytes ← runtime.layout.estimate loaded.active.rules
  checkedAdd bytes loaded.registry.checkpointBytes "native tableau memory estimate overflow"

/-- The production tableau as a session sees it. -/
def native : NativeTableau (ProductionTableau ω) Query (ProductionCheckpoint σ) where
  estimatedMemoryBytes := estimatedMemoryBytes runtime
  operationCheckpoint := operationCheckpoint runtime
  installQuery := installQuery runtime
  finishOperation := finishOperation runtime
  resetToPermanent := resetToPermanent
  hasClash t := (activeLens.get t).rules.kernel.state.clash.isSome
  processNominals control := zoom controlledActive (runtime.processNominals control)
  applyNextDelta control := zoom controlledActive (runtime.applyNextDelta control)
  checkDatatypes control := zoom controlledActive (runtime.checkDatatypes control)
  hasExistentialCandidates t :=
    !(activeLens.get t).rules.kernel.state.existentialCandidates.entries.isEmpty
  refreshBlocking control := zoom controlledActive (runtime.refreshBlocking control)
  processExistential control := zoom controlledActive (runtime.processExistential control)
  processDisjunction control := zoom controlledActive (runtime.processDisjunction control)
  resolveClash control := zoom controlledActive (runtime.resolveClash control)
  invalidateAfterBacktrack := zoom activeLens runtime.invalidateAfterBacktrack
  validateBlocking control := zoom controlledActive (runtime.validateBlocking control)
  readyForSat t := runtime.readyForSat (activeLens.get t)
  checkInvariants := checkInvariants runtime

end

end ProductionTableau

end PyHermit
