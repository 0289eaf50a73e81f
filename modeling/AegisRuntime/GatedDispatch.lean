import AegisRuntime.FailureRecords
import AegisRuntime.KeyedTables
import AegisRuntime.LocalCommands

/-!
# The two gated dispatch paths

`SkillRegistry::execute_gated` and `SkillRegistry::dispatch_classified`, with
the membrane and the probe gate that both run first. A dispatch returns its
result together with the handler calls it made. The probe engine, the numbers
it answers with and the handlers are parameters. The result reads both paths
through one admission and compares them on every request.
-/

namespace AegisRuntime.GatedDispatch

open KeyedTables JsonValues TextScanning WorkspacePaths LocalCommands FailureRecords

/-- The operations of `f64` that the probe policy uses. -/
structure ProbeNumbers (π : Type) where
  /-- Nought. -/
  zero : π
  /-- One. -/
  one : π
  /-- `DEFAULT_PROBE_THRESHOLD`. -/
  defaultThreshold : π
  /-- The strict order. -/
  below : π → π → Bool
  /-- Neither infinite nor undefined. -/
  isFinite : π → Bool
  /-- Reads a number. -/
  parse : String → Option π
  /-- Prints four decimals. -/
  fixed4 : π → String

/-- What the probe engine answers. -/
structure ProbeResponse (π : Type) where
  /-- The probability under `safety`. -/
  safety : Option π
  /-- The choice under `boundary`. -/
  boundary : Option String

/-- A policy guard over an engine. -/
structure ProbePolicyGuard (π : Type) where
  /-- Evaluates a state against the two probes. -/
  evaluate : JsonValue → Except String (ProbeResponse π)
  /-- Least probability that passes. -/
  minSafetyProbability : π

/-- What both paths meet from outside. -/
structure DispatchEnv (π : Type) where
  /-- The numbers. -/
  numbers : ProbeNumbers π
  /-- The tables of `str::escape_debug`. -/
  escapeDebug : String → String
  /-- The engine over the reference backend. -/
  evaluate : JsonValue → Except String (ProbeResponse π)
  /-- The variable `AIEN_PROBE_ENFORCE`, if set. -/
  probeEnforce : Option String

/-- A registered skill: its name and its handler. -/
structure RegisteredSkill where
  /-- The name, the key of the registry. -/
  name : String
  /-- The handler. -/
  handler : JsonValue → Except String String

/-- The registry by name. -/
abbrev SkillRegistry : Type := Table RegisteredSkill.name

/-- A request for a skill. -/
structure SkillExecutionRequest where
  /-- Name of the skill. -/
  skillName : String
  /-- Its arguments. -/
  arguments : JsonValue

/-- The untyped answer. -/
structure SkillExecutionResponse where
  /-- Whether the handler succeeded. -/
  success : Bool
  /-- Its output. -/
  output : String
  /-- The error text, if any. -/
  error : Option String
  deriving DecidableEq,Repr

/-- One call of a handler. -/
structure Invocation where
  /-- Name of the skill. -/
  skillName : String
  /-- What the handler was given. -/
  arguments : JsonValue

/-- Whether a threshold from the environment is taken. -/
def ProbeNumbers.stricter {π : Type} (numbers : ProbeNumbers π) (t : π) : Bool :=
  numbers.isFinite t && numbers.below numbers.defaultThreshold t && !numbers.below numbers.one t

/-- The threshold; the environment may only make it stricter. -/
def probeThresholdFrom {π : Type} (numbers : ProbeNumbers π) (value : Option String) : π :=
  ((value.bind fun v => numbers.parse (String.ofList (trim v.toList))).filter
    numbers.stricter).getD numbers.defaultThreshold

/-- Evaluates a candidate action. -/
def ProbePolicyGuard.checkAction {π : Type} (numbers : ProbeNumbers π)
    (guard : ProbePolicyGuard π) (actionName payload : String) : Except SecurityError Bool :=
  match guard.evaluate (.object [("action",.string actionName),("payload",.string payload)]) with
  | .error e => .error (.accessDenied ("Probe evaluation failed: "++e))
  | .ok response =>
    let safetyProb := response.safety.getD numbers.zero
    let boundary := response.boundary.getD "unauthorized_escalation"
    if numbers.below safetyProb guard.minSafetyProbability ||
        boundary=="unauthorized_escalation" then
      .error (.accessDenied ("Action '"++actionName++"' blocked by sovereign probe policy: "++
        "safety "++numbers.fixed4 safetyProb++" < "++numbers.fixed4 guard.minSafetyProbability++
        ", scope '"++boundary++"'"))
    else .ok true

/-- The membrane, then the probe opinion. -/
def ProbePolicyGuard.gateSkill {π : Type} (env : DispatchEnv π) (guard : ProbePolicyGuard π)
    (skillName : String) (args : JsonValue) : Except SecurityError Unit :=
  match preDispatchCheck env.escapeDebug skillName args with
  | .error reason => .error (.accessDenied reason)
  | .ok () => (guard.checkAction env.numbers skillName args.compact).map fun _ => ()

/-- The gate with a fresh guard at the threshold of the environment. -/
def probeGate {π : Type} (env : DispatchEnv π) (skillName : String) (args : JsonValue) :
    Except String Unit :=
  let guard : ProbePolicyGuard π :=
    ⟨env.evaluate,probeThresholdFrom env.numbers env.probeEnforce⟩
  (guard.gateSkill env skillName args).mapError SecurityError.text

/-- A fault before any effect. -/
def ToolFault.rejected (message : String) : ToolFault := ⟨.rejected,.noEffect,message⟩

/-- A fault of an unreachable backend. -/
def ToolFault.unavailable (message : String) : ToolFault := ⟨.unavailable,.noEffect,message⟩

/-- The fault that the error of a handler becomes. -/
def classifyHandlerError (skillName err : String) : ToolFault :=
  if "Unavailable".toList.isPrefixOf err.toList then ToolFault.unavailable err
  else if (skillEffectProfile skillName).idempotent then ⟨.failed,.noEffect,err⟩
  else ⟨.failed,.effectOccurred,err⟩

/-- The text for a name that nothing is registered under. -/
def notInRegistry (skillName : String) : String :=
  "Skill '"++skillName++"' not found in registry"

/-- The membrane again, then the handler. -/
def SkillRegistry.execute {π : Type} (env : DispatchEnv π) (registry : SkillRegistry)
    (req : SkillExecutionRequest) : SkillExecutionResponse×List Invocation :=
  match preDispatchCheck env.escapeDebug req.skillName req.arguments with
  | .error reason => (⟨false,"",some reason⟩,[])
  | .ok () =>
    match registry.find req.skillName with
    | some skill =>
      match skill.handler req.arguments with
      | .ok output => (⟨true,output,none⟩,[⟨req.skillName,req.arguments⟩])
      | .error err => (⟨false,"",some err⟩,[⟨req.skillName,req.arguments⟩])
    | none => (⟨false,"",some (notInRegistry req.skillName)⟩,[])

/-- The probe gate, then the rest. -/
def SkillRegistry.executeGated {π : Type} (env : DispatchEnv π) (registry : SkillRegistry)
    (req : SkillExecutionRequest) : SkillExecutionResponse×List Invocation :=
  match probeGate env req.skillName req.arguments with
  | .error reason => (⟨false,"",some reason⟩,[])
  | .ok () => SkillRegistry.execute env registry req

/-- The same gates with a typed fault. -/
def SkillRegistry.dispatchClassified {π : Type} (env : DispatchEnv π) (registry : SkillRegistry)
    (skillName : String) (arguments : JsonValue) : Except ToolFault String×List Invocation :=
  match probeGate env skillName arguments with
  | .error reason => (.error (ToolFault.rejected reason),[])
  | .ok () =>
    match preDispatchCheck env.escapeDebug skillName arguments with
    | .error reason => (.error (ToolFault.rejected reason),[])
    | .ok () =>
      match registry.find skillName with
      | none => (.error (ToolFault.rejected (notInRegistry skillName)),[])
      | some skill =>
        ((skill.handler arguments).mapError (classifyHandlerError skillName),
          [⟨skillName,arguments⟩])

/-- What a request must pass, in order: the probe gate and the registry. -/
def admission {π : Type} (env : DispatchEnv π) (registry : SkillRegistry) (skillName : String)
    (arguments : JsonValue) : Except String RegisteredSkill :=
  match probeGate env skillName arguments with
  | .error reason => .error reason
  | .ok () =>
    match registry.find skillName with
    | none => .error (notInRegistry skillName)
    | some skill => .ok skill

/-- The answer that carries what a handler returned. -/
def SkillExecutionResponse.ofResult : Except String String → SkillExecutionResponse
  | .ok output => ⟨true,output,none⟩
  | .error err => ⟨false,"",some err⟩

/-- A dispatch: a refusal calls nothing, an admitted request calls its handler once. -/
def callAdmitted {ρ : Type} (refuse : String → ρ) (answer : Except String String → ρ)
    (skillName : String) (arguments : JsonValue) :
    Except String RegisteredSkill → ρ×List Invocation
  | .error reason => (refuse reason,[])
  | .ok skill => (answer (skill.handler arguments),[⟨skillName,arguments⟩])

variable {π : Type} {env : DispatchEnv π} {registry : SkillRegistry} {skillName : String}
  {arguments : JsonValue}

/-- A threshold from the environment lies above the default one. -/
theorem probeThresholdFrom_strict (numbers : ProbeNumbers π) (value : Option String) :
    probeThresholdFrom numbers value=numbers.defaultThreshold ∨
      numbers.below numbers.defaultThreshold (probeThresholdFrom numbers value)=true := by
  rw [probeThresholdFrom]
  cases ht : (value.bind fun v => numbers.parse (String.ofList (trim v.toList))).filter
      numbers.stricter with
  | none => exact .inl rfl
  | some t =>
    have hstrict := (Option.filter_eq_some_iff.mp ht).2
    rw [ProbeNumbers.stricter,Bool.and_eq_true,Bool.and_eq_true] at hstrict
    exact .inr hstrict.1.2

/-- The probe gate passes nothing that the membrane refuses. -/
theorem preDispatchCheck_of_probeGate (h : probeGate env skillName arguments=.ok ()) :
    preDispatchCheck env.escapeDebug skillName arguments=.ok () := by
  cases hcheck : preDispatchCheck env.escapeDebug skillName arguments with
  | error reason =>
    rw [probeGate,ProbePolicyGuard.gateSkill,hcheck] at h
    cases h
  | ok u => rfl

/-- An error of a handler is never classed as a refusal, and keeps its text. -/
theorem classifyHandlerError_spec (skillName err : String) :
    (classifyHandlerError skillName err).cls≠.rejected ∧
      (classifyHandlerError skillName err).message=err := by
  unfold classifyHandlerError
  split
  · exact ⟨FailureClass.noConfusion,rfl⟩
  · split
    · exact ⟨FailureClass.noConfusion,rfl⟩
    · exact ⟨FailureClass.noConfusion,rfl⟩

/-- A request is admitted when the membrane, the probe gate and the registry
accept it. -/
theorem admission_ok_iff {skill : RegisteredSkill} :
    admission env registry skillName arguments=.ok skill ↔
      preDispatchCheck env.escapeDebug skillName arguments=.ok () ∧
        probeGate env skillName arguments=.ok () ∧ registry.find skillName=some skill := by
  rw [admission]
  cases hgate : probeGate env skillName arguments with
  | error reason => simp
  | ok u =>
    have hcheck := preDispatchCheck_of_probeGate hgate
    cases hfind : registry.find skillName with
    | none => simp
    | some found => simp [hcheck]

/-- The classified path is such a dispatch with a typed fault. -/
theorem dispatchClassified_eq : SkillRegistry.dispatchClassified env registry skillName arguments=
    callAdmitted (fun reason => .error (ToolFault.rejected reason))
      (fun result => result.mapError (classifyHandlerError skillName)) skillName arguments
      (admission env registry skillName arguments) := by
  rw [SkillRegistry.dispatchClassified,admission]
  cases hgate : probeGate env skillName arguments with
  | error reason => rfl
  | ok u =>
    simp only [preDispatchCheck_of_probeGate hgate]
    cases registry.find skillName <;> rfl

/-- The untyped path is the same dispatch with an error text. -/
theorem executeGated_eq : SkillRegistry.executeGated env registry ⟨skillName,arguments⟩=
    callAdmitted (fun reason => ⟨false,"",some reason⟩) SkillExecutionResponse.ofResult
      skillName arguments (admission env registry skillName arguments) := by
  rw [SkillRegistry.executeGated,admission]
  cases hgate : probeGate env skillName arguments with
  | error reason => rfl
  | ok u =>
    simp only [SkillRegistry.execute,preDispatchCheck_of_probeGate hgate]
    cases registry.find skillName with
    | none => rfl
    | some skill =>
      simp only [callAdmitted]
      cases skill.handler arguments <;> rfl

/-- On every request the two paths succeed with the same outputs, fail with the
same texts and make the same handler call, which needs the membrane, the probe
gate and the registry; and a fault is a refusal exactly when no handler ran. -/
theorem gated_paths_agree (env : DispatchEnv π) (registry : SkillRegistry) (skillName : String)
    (arguments : JsonValue) :
    (∀ o, ((SkillRegistry.executeGated env registry ⟨skillName,arguments⟩).1.success=true ∧
        (SkillRegistry.executeGated env registry ⟨skillName,arguments⟩).1.output=o) ↔
      (SkillRegistry.dispatchClassified env registry skillName arguments).1=.ok o) ∧
    (∀ fault,
      (SkillRegistry.dispatchClassified env registry skillName arguments).1=.error fault →
      (SkillRegistry.executeGated env registry ⟨skillName,arguments⟩).1=
          ⟨false,"",some fault.message⟩ ∧
        (fault.cls=.rejected ↔
          (SkillRegistry.dispatchClassified env registry skillName arguments).2=[])) ∧
    (SkillRegistry.executeGated env registry ⟨skillName,arguments⟩).2=
      (SkillRegistry.dispatchClassified env registry skillName arguments).2 ∧
    ((SkillRegistry.dispatchClassified env registry skillName arguments).2=[] ∨
      (SkillRegistry.dispatchClassified env registry skillName arguments).2=
        [⟨skillName,arguments⟩]) ∧
    ((SkillRegistry.dispatchClassified env registry skillName arguments).2≠[] ↔
      preDispatchCheck env.escapeDebug skillName arguments=.ok () ∧
        probeGate env skillName arguments=.ok () ∧
          ∃ skill, registry.find skillName=some skill) := by
  have hinvoked : (∃ skill, admission env registry skillName arguments=.ok skill) ↔
      preDispatchCheck env.escapeDebug skillName arguments=.ok () ∧
        probeGate env skillName arguments=.ok () ∧
          ∃ skill, registry.find skillName=some skill := by
    simp only [admission_ok_iff,exists_and_left]
  rw [←hinvoked,executeGated_eq,dispatchClassified_eq]
  cases admission env registry skillName arguments with
  | error reason => simp [callAdmitted,ToolFault.rejected]
  | ok skill =>
    cases hcall : skill.handler arguments with
    | ok output => simp [callAdmitted,hcall,SkillExecutionResponse.ofResult,Except.mapError]
    | error err =>
      obtain ⟨hcls,hmessage⟩ := classifyHandlerError_spec skillName err
      simp [callAdmitted,hcall,SkillExecutionResponse.ofResult,Except.mapError,hcls,hmessage]

end AegisRuntime.GatedDispatch
