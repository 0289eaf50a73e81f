import AegisRuntime.JsonValues
import AegisRuntime.TextScanning
import Mathlib.Data.List.Sort

/-!
# Structured failure provenance

The failure vocabulary of `failure.rs`: classes, effect certainty, the retry
rule, the failure record with its bounded cause chain, and the redaction of
argument values echoed by an error text. The sha256 digest of a compact JSON
form comes from third-party crates and is a parameter.
-/

namespace AegisRuntime.FailureRecords

open TextScanning JsonValues

/-- Maximum number of entries kept in a cause chain. -/
def MAX_CAUSE_ENTRIES : ℕ := 8

/-- Maximum size in bytes of one cause message. -/
def MAX_CAUSE_MESSAGE_BYTES : ℕ := 512

/-- Hard ceiling on attempts per tool call, whatever the policy says. -/
def MAX_ATTEMPTS_CEILING : ℕ := 5

/-- Text that replaces a secret-looking argument value found in a message. -/
def REDACTION_PLACEHOLDER : String := "[redacted]"

/-- What kind of failure a tool call ended with. -/
inductive FailureClass where
  /-- Refused before acting. -/
  | rejected
  /-- Backend, authority or runtime not reachable before any effect. -/
  | unavailable
  /-- Deadline hit. -/
  | timeout
  /-- Cancelled by operator or parent. -/
  | cancelled
  /-- The effect may have happened. -/
  | uncertain
  /-- The handler ran and reported an error. -/
  | failed
  /-- The tool result was unparsable or broke its schema. -/
  | malformed
  /-- Not a failure: waiting for a human. -/
  | approvalPending
  deriving DecidableEq,Repr

/-- What is known about the effect of a failed call. -/
inductive EffectCertainty where
  /-- Nothing happened. -/
  | noEffect
  /-- The effect may have happened. -/
  | uncertain
  /-- The effect happened. -/
  | effectOccurred
  deriving DecidableEq,Repr

/-- Whether an automatic retry is allowed; derived, never stored as a grant. -/
inductive RetryEligibility where
  /-- Retries are allowed up to the given number of attempts. -/
  | retryable (maxAttempts : ℕ)
  /-- No retry. -/
  | notRetryable
  deriving DecidableEq,Repr

/-- Retry policy. -/
structure RetryPolicy where
  /-- Attempts the policy allows; the default of one means no retry. -/
  maxAttempts : ℕ := 1
  deriving DecidableEq,Repr

/-- A retry needs an unreachable backend, no effect, an idempotent capability
and a policy with more than one attempt. -/
def retryEligibility (cls : FailureClass) (certainty : EffectCertainty) (idempotent : Bool)
    (policy : RetryPolicy) : RetryEligibility :=
  let classOk := decide (cls=.unavailable)
  let attempts := min policy.maxAttempts MAX_ATTEMPTS_CEILING
  if classOk && decide (certainty=.noEffect) && idempotent && decide (1 < attempts) then
    .retryable attempts
  else .notRetryable

/-- What the skill contract says about a capability. -/
structure SkillEffectProfile where
  /-- Whether running the capability twice is harmless. -/
  idempotent : Bool
  deriving DecidableEq,Repr

/-- Unknown names are treated as mutating. -/
def skillEffectProfile (skillName : String) : SkillEffectProfile :=
  ⟨skillName=="read_file" || skillName=="list_dir" || skillName=="git_status" ||
    skillName=="cortex.search" || skillName=="cortex_recall"⟩

/-- One entry of a cause chain. -/
structure CauseEntry where
  /-- Who reported the cause. -/
  source : String
  /-- The cause, cut to `MAX_CAUSE_MESSAGE_BYTES`. -/
  message : String
  /-- Digest of the payload; the payload itself is never stored. -/
  payloadDigest : Option String
  deriving DecidableEq,Repr

/-- A structured failure record. -/
structure FailureRecord where
  /-- Stable order among failures of one run. -/
  sequence : ℕ
  /-- The run the failure belongs to. -/
  runId : String
  /-- Step of the run. -/
  stepIndex : ℕ
  /-- The failed call. -/
  toolCallId : String
  /-- The failed call this one directly followed, if any. -/
  parentCallId : Option String
  /-- Name of the tool. -/
  toolName : String
  /-- Attempt number of the call, from one. -/
  attempt : ℕ
  /-- Class of the failure. -/
  cls : FailureClass
  /-- What is known about effects. -/
  effectCertainty : EffectCertainty
  /-- Scheduling point, milliseconds since the Unix epoch. -/
  createdAt : ℤ
  /-- Terminal failure point, milliseconds since the Unix epoch. -/
  failedAt : ℤ
  /-- The bounded cause chain. -/
  cause : List CauseEntry
  /-- Set when a cause was dropped. -/
  causeTruncated : Bool
  deriving DecidableEq,Repr

/-- Whether a byte offset of the UTF-8 text falls between characters. -/
def isCharBoundary : List Char → ℕ → Bool
  | _,0 => true
  | [],_+1 => false
  | c::cs,n => decide (c.utf8Size ≤ n) && isCharBoundary cs (n-c.utf8Size)

/-- The `while` loop of `truncate_bytes`: lowers the offset to a boundary. -/
def lowerToBoundary (cs : List Char) : ℕ → ℕ
  | 0 => 0
  | n+1 => if isCharBoundary cs (n+1) then n+1 else lowerToBoundary cs n

/-- The characters of the text up to a byte offset. -/
def takeBytes : List Char → ℕ → List Char
  | [],_ => []
  | c::cs,n => if c.utf8Size ≤ n then c::takeBytes cs (n-c.utf8Size) else []

/-- Keeps at most `max` bytes, cutting on a character boundary. -/
def truncateBytes (s : String) (max : ℕ) : String :=
  if s.utf8ByteSize ≤ max then s
  else String.ofList (takeBytes s.toList (lowerToBoundary s.toList max))

/-- Digest of the compact JSON form. -/
def payloadDigest (sha256Hex : JsonValue → String) (payload : JsonValue) : String :=
  "sha256:"++sha256Hex payload

mutual

/-- String values of at least four bytes, in traversal order. -/
def collectStrings : JsonValue → List String
  | .string s => if 4 ≤ s.utf8ByteSize then [s] else []
  | .array items => collectItems items
  | .object members => collectMembers members
  | .null | .bool _ | .number _ => []

/-- The string values of the items of an array. -/
def collectItems : List JsonValue → List String
  | [] => []
  | x::xs => collectStrings x++collectItems xs

/-- The string values of the members of an object. -/
def collectMembers : List (String×JsonValue) → List String
  | [] => []
  | (_,x)::xs => collectStrings x++collectMembers xs

end

/-- One replacement of the redaction loop. -/
def redactValue (out : List Char) (value : String) : List Char :=
  if containsText value.toList out then
    replaceAll value.toList REDACTION_PLACEHOLDER.toList out
  else out

/-- Replaces every argument string value that appears in the message, longest
first so that a long value is not half replaced by a shorter one. -/
def redactPayloadEchoes (message : String) (args : JsonValue) : String :=
  let values := (collectStrings args).insertionSort fun a b => b.utf8ByteSize ≤ a.utf8ByteSize
  String.ofList (values.foldl redactValue message.toList)

/-- A record without causes. -/
def FailureRecord.new (sequence : ℕ) (runId : String) (stepIndex : ℕ) (toolCallId : String)
    (parentCallId : Option String) (toolName : String) (attempt : ℕ) (cls : FailureClass)
    (effectCertainty : EffectCertainty) (createdAt failedAt : ℤ) : FailureRecord :=
  ⟨sequence,runId,stepIndex,toolCallId,parentCallId,toolName,attempt,cls,effectCertainty,
    createdAt,failedAt,[],false⟩

/-- Appends one cause with its message cut. Past `MAX_CAUSE_ENTRIES` entries the
cause is dropped and `causeTruncated` is set. -/
def FailureRecord.pushCause (sha256Hex : JsonValue → String) (r : FailureRecord)
    (source message : String) (payload : Option JsonValue) : FailureRecord :=
  if MAX_CAUSE_ENTRIES ≤ r.cause.length then {r with causeTruncated := true}
  else {r with cause := r.cause++[⟨source,truncateBytes message MAX_CAUSE_MESSAGE_BYTES,
    payload.map (payloadDigest sha256Hex)⟩]}

/-- The last record of the parent call, if there is one among the records. -/
def parentRecord (records : List FailureRecord) (current : FailureRecord) :
    Option FailureRecord :=
  current.parentCallId.bind fun pid => records.reverse.find? fun r => r.toolCallId==pid

/-- The loop of `root_cause`: goes to the parent as long as it is another record, at
most the given number of times. -/
def followParents (records : List FailureRecord) : ℕ → FailureRecord → FailureRecord
  | 0,current => current
  | left+1,current =>
    match parentRecord records current with
    | some p => if p.sequence≠current.sequence then followParents records left p else current
    | none => current

/-- Follows the parents from the first record of the call and the attempt. The number
of records bounds the loop, so a cycle cannot go on forever. -/
def rootCause (records : List FailureRecord) (start : FailureRecord) : Option FailureRecord :=
  (records.find? fun r => r.toolCallId==start.toolCallId && r.attempt==start.attempt).map
    (followParents records (records.length+1))

/-- A classified tool-level fault, before it is stamped with run identifiers. -/
structure ToolFault where
  /-- Class of the fault. -/
  cls : FailureClass
  /-- What is known about effects. -/
  certainty : EffectCertainty
  /-- Error text. -/
  message : String
  deriving DecidableEq,Repr

/-- Pushing a cause changes the cause chain alone. -/
theorem FailureRecord.pushCause_eq (sha256Hex : JsonValue → String) (r : FailureRecord)
    (source message : String) (payload : Option JsonValue) : ∃ cause truncated,
    r.pushCause sha256Hex source message payload={r with cause := cause,causeTruncated := truncated} := by
  unfold FailureRecord.pushCause
  split
  · exact ⟨_,true,rfl⟩
  · exact ⟨_,r.causeTruncated,rfl⟩

/-- Pushing a cause leaves the identity of the record alone. -/
theorem FailureRecord.pushCause_fields (sha256Hex : JsonValue → String) (r : FailureRecord)
    (source message : String) (payload : Option JsonValue) :
    (r.pushCause sha256Hex source message payload).sequence=r.sequence ∧
      (r.pushCause sha256Hex source message payload).toolCallId=r.toolCallId ∧
      (r.pushCause sha256Hex source message payload).cls=r.cls ∧
      (r.pushCause sha256Hex source message payload).effectCertainty=r.effectCertainty := by
  obtain ⟨cause,truncated,heq⟩ := r.pushCause_eq sha256Hex source message payload
  rw [heq]
  exact ⟨rfl,rfl,rfl,rfl⟩

end AegisRuntime.FailureRecords
