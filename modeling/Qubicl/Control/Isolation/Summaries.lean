import Mathlib.Data.Rat.Cast.Order
import Qubicl.Control.Isolation.Runner
import Qubicl.Control.Supervision.Restart

/-!
# Summaries of managed work (packages/control/src/processes.ts:146-226)

What a manager says of its work, the values that the texts of its answers stand for, and which of these values the control
service accepts.
-/

namespace Qubicl.Control.Isolation
open Foundation Lease List
open Process (ProcessLifecycle StreamType)
open Supervision (ServiceStatus)

def stateText : ServiceStatus → String
  | .queued => "queued"
  | .starting => "starting"
  | .ready => "ready"
  | .unhealthy => "unhealthy"
  | .exited => "exited"
  | .unverified => "unverified"

structure ServiceState where
  state : ServiceStatus
  restartAttempts : ℕ
  lastCheckedAt : Option String
  lastError : Option String
  nextRestartAt : Option String
  lastExitCode : Option ℤ
  deriving DecidableEq, Repr

namespace ServiceState

def fields (service : ServiceState) : List (String × Option Json) :=
  [("state",some (.string (stateText service.state))),
    ("restartAttempts",some (.number service.restartAttempts)),
    ("lastCheckedAt",service.lastCheckedAt.map .string),
    ("lastError",service.lastError.map .string),
    ("nextRestartAt",service.nextRestartAt.map .string),
    ("lastExitCode",service.lastExitCode.map fun code : ℤ => .number code)]

def toJson (service : ServiceState) : Json := .object (properties service.fields)

theorem get_toJson (service : ServiceState) (key : String) :
    service.toJson.get key=(service.fields.lookup key).join :=
  lookup_properties (by simp [fields])

/-- What the validator of a service state asks beyond the types. -/
structure Reportable (service : ServiceState) : Prop where
  attempts : service.restartAttempts≤Json.MAX_SAFE_INTEGER
  exitCode : ∀ code, service.lastExitCode=some code → code.natAbs≤Json.MAX_SAFE_INTEGER

end ServiceState

theorem absentOr_map {α : Type} {accepts : Json → Bool} {f : α → Json} {value : Option α} :
    Json.absentOr accepts (value.map f)=true ↔ ∀ v, value=some v → accepts (f v)=true := by
  cases value with
  | none => simp [Json.absentOr]
  | some v => simp [Json.absentOr]

theorem absentOr_string {value : Option String} : Json.absentOr Json.isString (value.map .string)=true :=
  absentOr_map.2 fun _ _ => rfl

theorem validServiceState_toJson {platform : Platform} {service : ServiceState} :
    validServiceState platform service.toJson=true ↔ service.Reportable := by
  have hkes : (service.toJson.keys.all fun key =>
      ["state","restartAttempts","lastCheckedAt","lastError","nextRestartAt","lastExitCode"].contains key)=true := by
    rw [all_eq_true]
    intro key hkey
    obtain ⟨value,hmem⟩ := keys_properties.1 hkey
    have hnam : key ∈ service.fields.map Prod.fst := mem_map.2 ⟨_,hmem,rfl⟩
    exact contains_iff_mem.2 hnam
  have hsta : ["queued","starting","ready","unhealthy","exited","unverified"].contains (stateText service.state) =
      true := by
    cases service.state <;> decide
  have hatt : service.toJson.get "restartAttempts" = some (.number service.restartAttempts) := service.get_toJson _
  have hcod : service.toJson.get "lastExitCode" = service.lastExitCode.map fun code : ℤ => .number code :=
    service.get_toJson _
  have hche : service.toJson.get "lastCheckedAt" = service.lastCheckedAt.map .string := service.get_toJson _
  have herr : service.toJson.get "lastError" = service.lastError.map .string := service.get_toJson _
  have hnex : service.toJson.get "nextRestartAt" = service.nextRestartAt.map .string := service.get_toJson _
  have hget : service.toJson.get "state" = some (.string (stateText service.state)) := service.get_toJson _
  have hrec : service.toJson.isRecord=true := rfl
  have hnon : (0 : ℚ) ≤ service.restartAttempts := Nat.cast_nonneg _
  unfold validServiceState
  simp only [hrec,hkes,hget,hatt,hcod,hche,herr,hnex,Json.fieldText,Json.text,hsta,
    Json.presentAnd,Json.isSafeInteger,Json.atLeast,hnon,absentOr_string,safeInteger_natCast,decide_true,
    Bool.and_true,Bool.true_and,Bool.and_eq_true,decide_eq_true_eq]
  constructor
  · intro ⟨hsaf,hexi⟩
    refine ⟨hsaf,fun code hcod => ?_⟩
    have := absentOr_map.1 hexi code hcod
    exact safeInteger_intCast.1 (of_decide_eq_true this)
  · intro hrep
    refine ⟨hrep.attempts,absentOr_map.2 fun code hcod => ?_⟩
    exact decide_eq_true (safeInteger_intCast.2 (hrep.exitCode code hcod))
inductive ManagementStatus
  | queued
  | running
  | exited
  | signaled
  | timedOut
  | stopped
  | interrupted
  deriving DecidableEq, Repr

def ManagementStatus.text : ManagementStatus → String
  | .queued => "queued"
  | .running => "running"
  | .exited => "exited"
  | .signaled => "signaled"
  | .timedOut => "timed-out"
  | .stopped => "stopped"
  | .interrupted => "interrupted"

def lifecycleText : ProcessLifecycle → String
  | .session => "session"
  | .task => "task"
  | .service => "service"

inductive ProcessKind
  | process
  | terminal
  deriving DecidableEq, Repr

def ProcessKind.text : ProcessKind → String
  | .process => "process"
  | .terminal => "terminal"

inductive WorkOwner
  | agent
  | computer
  deriving DecidableEq, Repr

def WorkOwner.text : WorkOwner → String
  | .agent => "agent"
  | .computer => "computer"

structure ManagementProcessSummary where
  pid : Option ℕ := none
  kind : Option ProcessKind := none
  service : Option ServiceState := none
  id : String
  exitCode : Option ℚ := none
  signal : Option String := none
  status : ManagementStatus
  startedAt : String
  finishedAt : Option String := none
  label : String
  lifecycle : ProcessLifecycle
  owner : WorkOwner
  ownerGeneration : ℕ
  deriving DecidableEq, Repr

namespace ManagementProcessSummary

def fields (summary : ManagementProcessSummary) : List (String × Option Json) :=
  [("id",some (.string summary.id)),
    ("kind",summary.kind.map fun kind => .string kind.text),
    ("pid",summary.pid.map fun pid : ℕ => .number pid),
    ("label",some (.string summary.label)),
    ("lifecycle",some (.string (lifecycleText summary.lifecycle))),
    ("status",some (.string summary.status.text)),
    ("startedAt",some (.string summary.startedAt)),
    ("finishedAt",summary.finishedAt.map .string),
    ("owner",some (.string summary.owner.text)),
    ("ownerGeneration",some (.number summary.ownerGeneration)),
    ("service",summary.service.map ServiceState.toJson),
    ("exitCode",summary.exitCode.map .number),
    ("signal",summary.signal.map .string)]

/- The order of its properties does not tell a value from another. -/
def toJson (summary : ManagementProcessSummary) : Json := .object (properties summary.fields)

theorem get_toJson (summary : ManagementProcessSummary) (key : String) :
    summary.toJson.get key=(summary.fields.lookup key).join :=
  lookup_properties (by simp [fields])

/-- What the validator asks of a summary beyond its type, but for the properties it may not have. -/
structure Reportable (platform : Platform) (summary : ManagementProcessSummary) : Prop where
  generation : 1 ≤ summary.ownerGeneration ∧ summary.ownerGeneration≤Json.MAX_SAFE_INTEGER
  exitCode : ∀ code, summary.exitCode=some code → Json.SafeInteger code
  signal : ∀ name, summary.signal=some name → name ∈ platform.signals.map Prod.fst
  service : ∀ service, summary.service=some service → summary.lifecycle=.service ∧ service.Reportable
  queued : summary.status=.queued →
    summary.lifecycle=.service ∧ ∃ service, summary.service=some service ∧ service.state=.queued

variable {summary : ManagementProcessSummary}

theorem keys_toJson :
    summary.toJson.keys.all managementKeys.contains=true ↔ summary.pid=none ∧ summary.kind=none := by
  rw [all_eq_true]
  constructor
  · intro hall
    constructor
    · cases hpid : summary.pid with
      | none => rfl
      | some pid =>
        have hmem : "pid" ∈ summary.toJson.keys := keys_properties.2 ⟨.number pid,by simp [fields,hpid]⟩
        exact absurd (hall "pid" hmem) (by decide)
    · cases hkin : summary.kind with
      | none => rfl
      | some kind =>
        have hmem : "kind" ∈ summary.toJson.keys := keys_properties.2 ⟨.string kind.text,by simp [fields,hkin]⟩
        exact absurd (hall "kind" hmem) (by decide)
  · intro ⟨hpid,hkin⟩ key hkey
    obtain ⟨value,hmem⟩ := keys_properties.1 hkey
    have hnam : key ∈ managementKeys := by
      simp only [fields,hpid,hkin,Option.map_none,mem_cons,Prod.mk.injEq,reduceCtorEq,and_false,
        not_mem_nil,or_false,false_or] at hmem
      simp only [managementKeys,mem_cons]
      grind
    exact contains_iff_mem.2 hnam

theorem isText_string {expected text : String} : Json.isText expected (.string text)=true ↔ text=expected :=
  beq_iff_eq

theorem lifecycleText_eq {lifecycle : ProcessLifecycle} : lifecycleText lifecycle = "service" ↔ lifecycle=.service := by
  cases lifecycle <;> decide

theorem stateText_eq {state : ServiceStatus} : stateText state = "queued" ↔ state=.queued := by
  cases state <;> decide

theorem statusText_eq {status : ManagementStatus} : status.text = "queued" ↔ status=.queued := by
  cases status <;> decide

theorem queuedAsService_toJson :
    queuedAsService summary.toJson=true ↔
      summary.lifecycle=.service ∧ ∃ service, summary.service=some service ∧ service.state=.queued := by
  have hlif : summary.toJson.get "lifecycle" = some (.string (lifecycleText summary.lifecycle)) :=
    summary.get_toJson _
  have hser : summary.toJson.get "service" = summary.service.map ServiceState.toJson := summary.get_toJson _
  unfold queuedAsService
  rw [hlif,hser,Bool.and_eq_true]
  apply and_congr
  · exact isText_string.trans lifecycleText_eq
  · cases summary.service with
    | none => simp [Json.presentAnd]
    | some service =>
      have hrec : service.toJson.isRecord=true := rfl
      have hsta : service.toJson.get "state" = some (.string (stateText service.state)) := service.get_toJson _
      simp [Json.presentAnd,hrec,hsta,isText_string,stateText_eq]

end ManagementProcessSummary

open ManagementProcessSummary in
theorem managementProcessSummary_toJson {platform : Platform} {summary : ManagementProcessSummary} :
    managementProcessSummary platform summary.toJson=.ok summary.toJson ↔
      (summary.pid=none ∧ summary.kind=none) ∧ summary.Reportable platform := by
  have hid : summary.toJson.get "id" = some (.string summary.id) := summary.get_toJson _
  have hlab : summary.toJson.get "label" = some (.string summary.label) := summary.get_toJson _
  have hlif : summary.toJson.get "lifecycle" = some (.string (lifecycleText summary.lifecycle)) :=
    summary.get_toJson _
  have hsts : summary.toJson.get "status" = some (.string summary.status.text) := summary.get_toJson _
  have hstd : summary.toJson.get "startedAt" = some (.string summary.startedAt) := summary.get_toJson _
  have hfin : summary.toJson.get "finishedAt" = summary.finishedAt.map .string := summary.get_toJson _
  have hown : summary.toJson.get "owner" = some (.string summary.owner.text) := summary.get_toJson _
  have hgen : summary.toJson.get "ownerGeneration" = some (.number summary.ownerGeneration) :=
    summary.get_toJson _
  have hser : summary.toJson.get "service" = summary.service.map ServiceState.toJson := summary.get_toJson _
  have hcod : summary.toJson.get "exitCode" = summary.exitCode.map .number := summary.get_toJson _
  have hsig : summary.toJson.get "signal" = summary.signal.map .string := summary.get_toJson _
  have hlis : ["session","task","service"].contains (lifecycleText summary.lifecycle)=true := by
    cases summary.lifecycle <;> decide
  have hstt : ["queued","running","exited","signaled","timed-out","stopped","interrupted"].contains
      summary.status.text=true := by
    cases summary.status <;> decide
  have hows : ["agent","computer"].contains summary.owner.text=true := by
    cases summary.owner <;> decide
  have hrec : summary.toJson.isRecord=true := rfl
  have hacc : managementProcessSummary platform summary.toJson=.ok summary.toJson ↔
      managementFields platform summary.toJson=true ∧ summary.toJson.keys.all managementKeys.contains=true := by
    unfold managementProcessSummary
    rw [← Bool.and_eq_true]
    split
    next h => simp [h]
    next h => simp [h]
  rw [hacc,keys_toJson,and_comm]
  apply and_congr Iff.rfl
  unfold managementFields
  simp only [hrec,hid,hlab,hlif,hsts,hstd,hfin,hown,hgen,hser,hcod,
    hsig,Json.fieldText,Json.text,hlis,hstt,hows,Json.presentAnd,Json.isString,
    absentOr_string,Json.isSafeInteger,Json.atLeast,Bool.and_true,Bool.true_and,Bool.and_eq_true,
    decide_eq_true_eq,safeInteger_natCast,absentOr_map,isText_string,lifecycleText_eq,validServiceState_toJson,
    Bool.or_eq_true,Bool.not_eq_true',queuedAsService_toJson,isSignal,contains_iff_mem]
  have hone : (1 : ℚ) ≤ summary.ownerGeneration ↔ 1 ≤ summary.ownerGeneration := Nat.one_le_cast
  have hque : Json.isText "queued" (.string summary.status.text)=false ↔ summary.status≠.queued := by
    rw [← Bool.not_eq_true,isText_string,statusText_eq]
  rw [hone,hque]
  constructor
  · rintro ⟨⟨⟨⟨⟨hsaf,hpos⟩,hexi⟩,hnam⟩,hsta⟩,hwai⟩
    exact ⟨⟨hpos,hsaf⟩,hexi,hnam,hsta,fun hq => hwai.resolve_left fun hne => hne hq⟩
  · intro h
    refine ⟨⟨⟨⟨⟨h.generation.2,h.generation.1⟩,h.exitCode⟩,h.signal⟩,h.service⟩,?_⟩
    by_cases hq : summary.status=.queued
    · exact .inr (h.queued hq)
    · exact .inl hq

inductive CompatibilityProcessStatus
  | running
  | done
  | killed
  deriving DecidableEq, Repr

def CompatibilityProcessStatus.text : CompatibilityProcessStatus → String
  | .running => "running"
  | .done => "done"
  | .killed => "killed"

def streamText : StreamType → String
  | .stdout => "stdout"
  | .stderr => "stderr"

/- A `null` is a value here. -/
def orNull {α : Type} (f : α → Json) : Option α → Json
  | none => .null
  | some value => f value

structure CompatibilityProcessSummary where
  id : String
  command : String
  status : CompatibilityProcessStatus
  exit_code : Option ℤ
  cwd : String
  session_id : Option String
  started_at : ℚ
  finished_at : Option ℚ
  deriving DecidableEq, Repr

structure CompatibilityProcessOutput extends CompatibilityProcessSummary where
  output : List (StreamType × String)
  truncated : Bool
  next_offset : ℕ
  deriving DecidableEq, Repr

namespace CompatibilityProcessSummary

def fields (summary : CompatibilityProcessSummary) : List (String × Option Json) :=
  [("id",some (.string summary.id)),
    ("command",some (.string summary.command)),
    ("status",some (.string summary.status.text)),
    ("exit_code",some (orNull (fun code : ℤ => .number code) summary.exit_code)),
    ("log_path",some .null),
    ("cwd",some (.string summary.cwd)),
    ("session_id",some (orNull .string summary.session_id)),
    ("started_at",some (.number summary.started_at)),
    ("finished_at",some (orNull .number summary.finished_at))]

def toJson (summary : CompatibilityProcessSummary) : Json := .object (properties summary.fields)

end CompatibilityProcessSummary

namespace CompatibilityProcessOutput

def entry (record : StreamType × String) : Json :=
  .object [("type",.string (streamText record.1)),("data",.string record.2)]

def pageFields (page : CompatibilityProcessOutput) : List (String × Json) :=
  [("output",.array (page.output.map entry)),("truncated",.boolean page.truncated),
    ("next_offset",.number page.next_offset)]

def fields (page : CompatibilityProcessOutput) : List (String × Option Json) :=
  page.toCompatibilityProcessSummary.fields++page.pageFields.map fun field => (field.1,some field.2)

def toJson (page : CompatibilityProcessOutput) : Json := .object (properties page.fields)

theorem get_toJson (page : CompatibilityProcessOutput) (key : String) :
    page.toJson.get key=(page.fields.lookup key).join :=
  lookup_properties (by simp [fields,pageFields,CompatibilityProcessSummary.fields])

end CompatibilityProcessOutput

variable {summary : CompatibilityProcessSummary} {page : CompatibilityProcessOutput}

theorem compatibilitySummaryFields_of {value : Json} (hrec : value.isRecord=true)
    (hget : ∀ field ∈ summary.fields, value.get field.1=field.2)
    (hcod : ∀ code, summary.exit_code=some code → code.natAbs≤Json.MAX_SAFE_INTEGER) :
    compatibilitySummaryFields value=true := by
  simp only [CompatibilityProcessSummary.fields,forall_mem_cons] at hget
  obtain ⟨hid,hcom,hsta,hext,hlog,hcwd,hses,hstd,hfin,-⟩ := hget
  have hsts : (["running","done","killed"].any fun text => Json.isText text (.string summary.status.text))=true := by
    cases summary.status <;> decide
  have hexi : ((orNull (fun code : ℤ => .number code) summary.exit_code).isNull ||
      (orNull (fun code : ℤ => .number code) summary.exit_code).isSafeInteger)=true := by
    cases hext : summary.exit_code with
    | none => rfl
    | some code => simpa [orNull,Json.isNull,Json.isSafeInteger,safeInteger_intCast] using hcod code hext
  have hsess : ((orNull .string summary.session_id).isNull || (orNull .string summary.session_id).isString)=true := by
    cases summary.session_id <;> rfl
  have hins : ((orNull .number summary.finished_at).isNull || (orNull .number summary.finished_at).isNumber)=true := by
    cases summary.finished_at <;> rfl
  have hstr (text : String) : Json.isString (.string text)=true := rfl
  have hnum (value : ℚ) : Json.isNumber (.number value)=true := rfl
  have hnul : Json.isNull .null=true := rfl
  unfold compatibilitySummaryFields
  simp only [hrec,hid,hcom,hsta,hext,hlog,hcwd,hses,hstd,hfin,Json.presentAnd,hstr,
    hnum,hnul,Bool.and_true,hexi,hsess,hins,hsts]

theorem compatibilitySummary_toJson {ambiguous : Bool}
    (hcod : ∀ code, summary.exit_code=some code → code.natAbs≤Json.MAX_SAFE_INTEGER) :
    compatibilitySummary ambiguous summary.toJson=.ok summary.toJson := by
  have hnod : (summary.fields.map Prod.fst).Nodup := by simp [CompatibilityProcessSummary.fields]
  have hfie : compatibilitySummaryFields summary.toJson=true := by
    refine compatibilitySummaryFields_of rfl (fun field hmem => ?_) hcod
    have hloo : summary.toJson.get field.1=(summary.fields.lookup field.1).join := lookup_properties hnod
    rw [hloo,lookup_of_mem hnod hmem]
    rfl
  unfold compatibilitySummary
  rw [if_pos hfie]

theorem outputEntry_entry (record : StreamType × String) : outputEntry (CompatibilityProcessOutput.entry record)=true := by
  obtain ⟨type,data⟩ := record
  cases type <;> rfl

theorem pageFields_toJson (hoff : page.next_offset≤Json.MAX_SAFE_INTEGER) :
    pageFields page.toJson=some page.pageFields := by
  have hout : page.toJson.get "output" = some (.array (page.output.map CompatibilityProcessOutput.entry)) :=
    page.get_toJson _
  have htru : page.toJson.get "truncated" = some (.boolean page.truncated) := page.get_toJson _
  have hnex : page.toJson.get "next_offset" = some (.number page.next_offset) := page.get_toJson _
  have hent : outputEntries (.array (page.output.map CompatibilityProcessOutput.entry))=true := by
    have hall : (page.output.map CompatibilityProcessOutput.entry).all outputEntry=true := by
      rw [all_map,all_eq_true]
      exact fun record _ => outputEntry_entry record
    exact hall
  have hsaf : Json.isSafeInteger (.number page.next_offset)=true := decide_eq_true (safeInteger_natCast.2 hoff)
  have hnon : Json.atLeast 0 (.number page.next_offset)=true := decide_eq_true (Nat.cast_nonneg _)
  unfold pageFields
  rw [hout,htru,hnex]
  simp [hent,hsaf,hnon,Json.isBoolean,CompatibilityProcessOutput.pageFields]

theorem compatibilityOutput_toJson {ambiguous : Bool}
    (hcod : ∀ code, page.exit_code=some code → code.natAbs≤Json.MAX_SAFE_INTEGER)
    (hoff : page.next_offset≤Json.MAX_SAFE_INTEGER) : compatibilityOutput ambiguous page.toJson=.ok page.toJson := by
  have hnod : (page.fields.map Prod.fst).Nodup := by
    simp [CompatibilityProcessOutput.fields,CompatibilityProcessOutput.pageFields,CompatibilityProcessSummary.fields]
  have hloo : ∀ field ∈ page.fields, page.toJson.get field.1=field.2 := by
    intro field hmem
    rw [page.get_toJson,lookup_of_mem hnod hmem]
    rfl
  have hsum : compatibilitySummaryFields page.toJson=true :=
    compatibilitySummaryFields_of rfl (fun field hmem => hloo field (mem_append_left _ hmem)) hcod
  unfold compatibilityOutput compatibilitySummary
  rw [if_pos hsum]
  dsimp only
  rw [pageFields_toJson hoff]
  dsimp only
  apply congrArg Except.ok
  apply Json.assign_self
  intro field hmem
  exact hloo (field.1,some field.2) (mem_append_right _ (mem_map.2 ⟨field,hmem,rfl⟩))


end Qubicl.Control.Isolation
