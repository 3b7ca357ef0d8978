import Qubicl.Control.Lease.Manager
import Qubicl.Foundation.Json

/-!
# What the control service accepts from its runner (packages/control/src/remote-runners.ts:64-118, 267-361)

The answers of the isolated runner are read from their texts and checked by hand before they are taken for what a local
manager would have returned.
-/

namespace Qubicl.Control.Isolation
open Foundation Lease

/- What the language and the operating system give: `os.constants.signals`, the texts of instants and numbers, the order
of `localeCompare` and the instant that `Date.parse` reads. -/
structure Platform where
  signals : List (String × ℕ)
  toISOString : ℕ → String
  dateParse : String → ℤ
  localeCompare : String → String → Ordering
  numberText : ℚ → String

def invalidRunnerResult (ambiguous : Bool) : QubiclError where
  code := if ambiguous then "internal_runner_ambiguous" else "internal_runner_invalid_response"
  message :=
    if ambiguous then "The isolated runner returned an invalid success result after the operation may have started."
    else "The isolated runner returned an invalid success result."
  status := if ambiguous then 503 else 502

def compatibilitySummaryFields (value : Json) : Bool :=
  value.isRecord &&
  Json.presentAnd Json.isString (value.get "id") &&
  Json.presentAnd Json.isString (value.get "command") &&
  Json.presentAnd (fun status => ["running","done","killed"].any status.isText) (value.get "status") &&
  Json.presentAnd (fun code => code.isNull || code.isSafeInteger) (value.get "exit_code") &&
  Json.presentAnd Json.isNull (value.get "log_path") &&
  Json.presentAnd Json.isString (value.get "cwd") &&
  Json.presentAnd (fun session => session.isNull || session.isString) (value.get "session_id") &&
  Json.presentAnd Json.isNumber (value.get "started_at") &&
  Json.presentAnd (fun instant => instant.isNull || instant.isNumber) (value.get "finished_at")

def compatibilitySummary (ambiguous : Bool) (value : Json) : Except QubiclError Json :=
  if compatibilitySummaryFields value then .ok value else .error (invalidRunnerResult ambiguous)

def outputEntry (entry : Json) : Bool :=
  entry.isRecord &&
  Json.presentAnd (fun type => type.isText "stdout" || type.isText "stderr") (entry.get "type") &&
  Json.presentAnd Json.isString (entry.get "data")

def outputEntries : Json → Bool
  | .array entries => entries.all outputEntry
  | _ => false

/-- The fields that a page has beside its summary, where they are what they should be. -/
def pageFields (value : Json) : Option (List (String × Json)) :=
  match value.get "output", value.get "truncated", value.get "next_offset" with
  | some output, some truncated, some offset =>
    if outputEntries output && truncated.isBoolean && offset.isSafeInteger && offset.atLeast 0 then
      some [("output",output),("truncated",truncated),("next_offset",offset)]
    else none
  | _, _, _ => none

def compatibilityOutput (ambiguous : Bool) (value : Json) : Except QubiclError Json :=
  match compatibilitySummary ambiguous value with
  | .error error => .error error
  | .ok summary =>
    match pageFields value with
    | none => .error (invalidRunnerResult ambiguous)
    | some fields => .ok (summary.assign fields)

variable (platform : Platform)

def validServiceState (value : Json) : Bool :=
  value.isRecord &&
  ["queued","starting","ready","unhealthy","exited","unverified"].contains
    (Json.fieldText platform.numberText (value.get "state")) &&
  Json.presentAnd (fun attempts => attempts.isSafeInteger && attempts.atLeast 0) (value.get "restartAttempts") &&
  Json.absentOr Json.isString (value.get "lastCheckedAt") &&
  Json.absentOr Json.isString (value.get "lastError") &&
  Json.absentOr Json.isString (value.get "nextRestartAt") &&
  Json.absentOr Json.isSafeInteger (value.get "lastExitCode") &&
  value.keys.all fun key =>
    ["state","restartAttempts","lastCheckedAt","lastError","nextRestartAt","lastExitCode"].contains key

/- `typeof value === 'string' && Object.hasOwn(osConstants.signals, value)` -/
def isSignal : Json → Bool
  | .string name => (platform.signals.map Prod.fst).contains name
  | _ => false

def queuedAsService (value : Json) : Bool :=
  Json.presentAnd (Json.isText "service") (value.get "lifecycle") &&
  Json.presentAnd (fun service => service.isRecord && Json.presentAnd (Json.isText "queued") (service.get "state"))
    (value.get "service")

def managementFields (value : Json) : Bool :=
  value.isRecord &&
  Json.presentAnd Json.isString (value.get "id") &&
  Json.presentAnd Json.isString (value.get "label") &&
  ["session","task","service"].contains (Json.fieldText platform.numberText (value.get "lifecycle")) &&
  ["queued","running","exited","signaled","timed-out","stopped","interrupted"].contains
    (Json.fieldText platform.numberText (value.get "status")) &&
  Json.presentAnd Json.isString (value.get "startedAt") &&
  Json.absentOr Json.isString (value.get "finishedAt") &&
  ["agent","computer"].contains (Json.fieldText platform.numberText (value.get "owner")) &&
  Json.presentAnd (fun generation => generation.isSafeInteger && generation.atLeast 1) (value.get "ownerGeneration") &&
  Json.absentOr Json.isSafeInteger (value.get "exitCode") &&
  Json.absentOr (isSignal platform) (value.get "signal") &&
  Json.absentOr (fun service => Json.presentAnd (Json.isText "service") (value.get "lifecycle") &&
    validServiceState platform service) (value.get "service") &&
  (!Json.presentAnd (Json.isText "queued") (value.get "status") || queuedAsService value)

def managementKeys : List String :=
  ["id","label","lifecycle","status","startedAt","finishedAt","owner","ownerGeneration","service","exitCode",
    "signal"]

def managementProcessSummary (value : Json) : Except QubiclError Json :=
  if managementFields platform value && value.keys.all managementKeys.contains then .ok value
  else .error (invalidRunnerResult false)

namespace RemoteProcessManager

/- An answer that is no list is refused; a list is refused with its first entry that is. -/
def entries (check : Json → Except QubiclError Json) : Json → Except QubiclError (List Json)
  | .array values => values.mapM check
  | _ => .error (invalidRunnerResult false)

def listForManagement (answer : Json) : Except QubiclError (List Json) :=
  entries (managementProcessSummary platform) answer

def listForAgent (answer : Json) : Except QubiclError (List Json) :=
  entries (managementProcessSummary platform) answer

def listCompatibility (answer : Json) : Except QubiclError (List Json) := entries (compatibilitySummary false) answer

def executeCompatibility (answer : Json) : Except QubiclError Json := compatibilityOutput true answer

def statusCompatibility (answer : Json) : Except QubiclError Json := compatibilityOutput false answer

theorem entries_eq_ok {check : Json → Except QubiclError Json} {values : List Json} :
    entries check (.array values)=.ok values ↔ ∀ value ∈ values, check value=.ok value := by
  unfold entries
  induction values with
  | nil => simp [pure,Except.pure]
  | cons value values ih =>
    simp only [List.mapM_cons,List.forall_mem_cons,← ih]
    cases hche : check value with
    | error error => simp [bind,Except.bind]
    | ok value' =>
      cases hres : values.mapM check with
      | error error => simp [bind,Except.bind]
      | ok values' => simp [bind,Except.bind,pure,Except.pure]

end RemoteProcessManager
end Qubicl.Control.Isolation
