import Mathlib.Algebra.GroupWithZero.Nat
import Mathlib.Algebra.Ring.Int.Defs
import Qubicl.Foundation.Transition

/-!
# Output of managed processes (processes.ts)

The part of `ProcessManager` that retains the output of its processes and keeps count of it: the chunks returned inline, the
journal of a compatibility session and the output file. A record is known by its number; the source's ids are 12 random bytes
and are taken as distinct.
-/

namespace Qubicl.Control.Process
open Qubicl.Foundation List

inductive ProcessLifecycle where
  | session
  | task
  | service
  deriving DecidableEq, Repr

inductive StreamType where
  | stdout
  | stderr
  deriving DecidableEq, Repr

structure OutputChunk where
  data : List UInt8
  sequence : ℕ
  deriving DecidableEq, Repr

structure RetainedStream where
  chunks : List OutputChunk
  bytes : ℤ
  truncated : Bool
  deriving DecidableEq, Repr

structure JournalRecord where
  type : StreamType
  offset : ℕ
  length : ℕ
  deriving DecidableEq, Repr

/-- The fields of a `ManagedProcess` that have to do with its output.  `cleanedUp`
is read by no operation: it remembers that the output file was given up. -/
structure ManagedOutput where
  lifecycle : ProcessLifecycle
  compatibilitySession : Bool
  maxOutputBytes : ℕ
  stdout : RetainedStream
  stderr : RetainedStream
  outputBytes : ℤ
  completed : Bool
  outputFileClosed : Bool
  outputFileTruncated : Bool
  fullOutputBytes : ℕ
  journal : List JournalRecord
  stdoutPending : List UInt8
  stderrPending : List UInt8
  outputCleanupTimer : Bool
  cleanedUp : Bool
  deriving DecidableEq, Repr

structure OutputLimits where
  maxRetainedOutputBytes : ℕ
  maxFullOutputBytes : ℕ
  maxAggregateOutputBytes : ℕ
  maxJournalRecords : ℕ
  maxAggregateJournalRecords : ℕ
  deriving Repr

def MAX_JOURNAL_RECORD_BYTES : ℕ := 64*1024

def emptyStream : RetainedStream := ⟨[],0,false⟩

def newOutput (lifecycle : ProcessLifecycle) (compatibilitySession : Bool) (maxOutputBytes : ℕ) :
    ManagedOutput where
  lifecycle := lifecycle
  compatibilitySession := compatibilitySession
  maxOutputBytes := maxOutputBytes
  stdout := emptyStream
  stderr := emptyStream
  outputBytes := 0
  completed := false
  outputFileClosed := false
  outputFileTruncated := false
  fullOutputBytes := 0
  journal := []
  stdoutPending := []
  stderrPending := []
  outputCleanupTimer := false
  cleanedUp := false

namespace ManagedOutput

def stream (m : ManagedOutput) : StreamType → RetainedStream
  | .stdout => m.stdout
  | .stderr => m.stderr

def setStream (m : ManagedOutput) (s : RetainedStream) : StreamType → ManagedOutput
  | .stdout => { m with stdout := s }
  | .stderr => { m with stderr := s }

def pending (m : ManagedOutput) : StreamType → List UInt8
  | .stdout => m.stdoutPending
  | .stderr => m.stderrPending

def setPending (m : ManagedOutput) (data : List UInt8) : StreamType → ManagedOutput
  | .stdout => { m with stdoutPending := data }
  | .stderr => { m with stderrPending := data }

end ManagedOutput

def utf8SequenceBytes (first : UInt8) : ℕ :=
  if 0xc2≤first ∧ first≤0xdf then 2
  else if 0xe0≤first ∧ first≤0xef then 3
  else if 0xf0≤first ∧ first≤0xf4 then 4
  else 1

/-- The length of the data without a sequence that is cut off at its end. -/
def completeUtf8PrefixLength (data : List UInt8) : ℕ :=
  let continuationBytes :=
    ((data.reverse.take 3).takeWhile fun byte => byte &&& 0xc0=0x80).length
  if data.length≤continuationBytes then data.length
  else
    let index:=data.length - 1 - continuationBytes
    let expected:=utf8SequenceBytes (data.getD index 0)
    if 1<expected ∧ data.length - index<expected then index else data.length

/-- Where the record ends that starts at `cursor`: behind the next newline, else at the
record limit without a cut-off sequence. -/
def recordEnd (data : List UInt8) (cursor : ℕ) : ℕ :=
  let maximumEnd:=min data.length (cursor+MAX_JOURNAL_RECORD_BYTES)
  let newline:=cursor+(data.drop cursor).idxOf 0x0a
  if newline < maximumEnd then newline+1
  else if maximumEnd<data.length then
    let safe:=completeUtf8PrefixLength ((data.take maximumEnd).drop cursor)
    if safe=0 then min data.length (maximumEnd+3) else cursor+safe
  else maximumEnd

theorem lt_recordEnd {data : List UInt8} {cursor : ℕ} (h : cursor<data.length) :
    cursor<recordEnd data cursor := by
  have hlim : 0<MAX_JOURNAL_RECORD_BYTES := by decide
  unfold recordEnd
  dsimp only
  split
  · omega
  · split
    · split <;> omega
    · omega

def planJournalRecords (type : StreamType) (start : ℕ) (data : List UInt8) (maximumRecords : ℕ)
    (cursor : ℕ) (records : List JournalRecord) : List JournalRecord × ℕ :=
  if h : cursor<data.length ∧ records.length < maximumRecords then
    planJournalRecords type start data maximumRecords (recordEnd data cursor)
      (records++[⟨type,start+cursor,recordEnd data cursor - cursor⟩])
  else (records,cursor)
termination_by data.length - cursor
decreasing_by
  have := lt_recordEnd h.1
  omega

/-- The two counters of the manager that a journal write moves. -/
structure Aggregates where
  outputBytes : ℤ
  journalRecords : ℤ
  deriving DecidableEq, Repr

/-- The bytes that the output file and the aggregate still have room for. -/
def remainingBytes (limits : OutputLimits) (m : ManagedOutput) (agg : Aggregates) : ℤ :=
  let ofFile : ℤ := limits.maxFullOutputBytes - m.fullOutputBytes
  min ofFile
    (if m.compatibilitySession then limits.maxAggregateOutputBytes - agg.outputBytes else ofFile)

/-- The records planned for what fits, and the bytes these records cover. -/
def planWrite (limits : OutputLimits) (m : ManagedOutput) (agg : Aggregates) (type : StreamType)
    (complete : List UInt8) (preserveUtf8Boundary : Bool) : List JournalRecord × List UInt8 :=
  let requestedBytes:=min complete.length (remainingBytes limits m agg).toNat
  let safeBytes :=
    if preserveUtf8Boundary=false ∨ requestedBytes=complete.length then requestedBytes
    else completeUtf8PrefixLength (complete.take requestedBytes)
  let candidate:=complete.take safeBytes
  if m.compatibilitySession then
    let availableRecords:=(min ((limits.maxJournalRecords : ℤ) - m.journal.length)
      (limits.maxAggregateJournalRecords - agg.journalRecords)).toNat
    let planned:=planJournalRecords type m.fullOutputBytes candidate availableRecords 0 []
    (planned.1,candidate.take planned.2)
  else ([],candidate)

/-- The `try` block: `written` says whether the write to the output file succeeds. -/
def writeJournal (m : ManagedOutput) (agg : Aggregates) (complete : List UInt8)
    (planned : List JournalRecord × List UInt8) (written : Bool) : ManagedOutput × Aggregates :=
  if written then
    let m:={ m with
      fullOutputBytes := m.fullOutputBytes+planned.2.length
      journal := m.journal++planned.1 }
    (if planned.2.length<complete.length then
      { m with outputFileTruncated := true, stdoutPending := [], stderrPending := [] }
    else m,
    ⟨agg.outputBytes+planned.2.length,agg.journalRecords+planned.1.length⟩)
  else ({ m with outputFileTruncated := true },agg)

def appendJournalBytes (limits : OutputLimits) (m : ManagedOutput) (agg : Aggregates)
    (type : StreamType) (complete : List UInt8) (preserveUtf8Boundary written : Bool) :
    ManagedOutput × Aggregates :=
  if remainingBytes limits m agg≤0 then ({ m with outputFileTruncated := true },agg)
  else writeJournal m agg complete
    (planWrite limits m agg type complete preserveUtf8Boundary) written

def appendJournal (limits : OutputLimits) (m : ManagedOutput) (agg : Aggregates)
    (type : StreamType) (chunk : List UInt8) (final written : Bool) : ManagedOutput × Aggregates :=
  if m.outputFileTruncated ∨ m.outputFileClosed then (m,agg)
  else if m.compatibilitySession=false then
    if final then (m,agg) else appendJournalBytes limits m agg type chunk false written
  else
    let combined:=m.pending type++chunk
    let completeBytes:=if final then combined.length else completeUtf8PrefixLength combined
    let m:=m.setPending (combined.drop completeBytes) type
    if completeBytes=0 then (m,agg)
    else appendJournalBytes limits m agg type (combined.take completeBytes) true written

/-- What is left of the record, and the bytes that were dropped. -/
def drop (m : ManagedOutput) (type : StreamType) (requestedBytes : ℤ) : ManagedOutput × ℤ :=
  match (m.stream type).chunks with
  | [] => (m,0)
  | first::rest =>
    let bytes:=min requestedBytes first.data.length
    let chunks :=
      if bytes=first.data.length then rest
      else { first with data := first.data.drop bytes.toNat } :: rest
    ({ m.setStream ⟨chunks,(m.stream type).bytes - bytes,true⟩ type with
        outputBytes := m.outputBytes - bytes },bytes)

def oldestStream (m : ManagedOutput) : Option StreamType :=
  match m.stdout.chunks, m.stderr.chunks with
  | [], [] => none
  | [], _::_ => some .stderr
  | _::_, [] => some .stdout
  | out::_, err::_ => some (if out.sequence≤err.sequence then .stdout else .stderr)

def chunkCount (m : ManagedOutput) : ℕ := m.stdout.chunks.length+m.stderr.chunks.length

theorem oldestStream_chunks {m : ManagedOutput} {type : StreamType}
    (h : oldestStream m=some type) : (m.stream type).chunks≠[] := by
  unfold oldestStream at h
  split at h
  · cases h
  · next hout herr =>
    cases h
    simp [ManagedOutput.stream,herr]
  · next hout herr =>
    cases h
    simp [ManagedOutput.stream,hout]
  · next hout herr =>
    cases h
    split <;> simp [ManagedOutput.stream,hout,herr]

theorem drop_progress {m : ManagedOutput} {type : StreamType} (requestedBytes : ℤ)
    (h : (m.stream type).chunks≠[]) :
    chunkCount (drop m type requestedBytes).1+1=chunkCount m ∨
      (chunkCount (drop m type requestedBytes).1=chunkCount m ∧
        (drop m type requestedBytes).2=requestedBytes) := by
  obtain ⟨first,rest,hchu⟩ := exists_cons_of_ne_nil h
  unfold drop
  rw [hchu]
  by_cases hall : min requestedBytes (first.data.length : ℤ)=first.data.length
  · left
    cases type with
    | stdout =>
      simp only [ManagedOutput.stream] at hchu
      simp [chunkCount,ManagedOutput.setStream,hall,hchu]
      omega
    | stderr =>
      simp only [ManagedOutput.stream] at hchu
      simp [chunkCount,ManagedOutput.setStream,hall,hchu]
      omega
  · right
    constructor
    · cases type with
      | stdout =>
        simp only [ManagedOutput.stream] at hchu
        simp [chunkCount,ManagedOutput.setStream,hall,hchu]
      | stderr =>
        simp only [ManagedOutput.stream] at hchu
        simp [chunkCount,ManagedOutput.setStream,hall,hchu]
    · show min requestedBytes (first.data.length : ℤ)=requestedBytes
      omega

theorem drop_outputBytes (m : ManagedOutput) (type : StreamType) (requestedBytes : ℤ) :
    (drop m type requestedBytes).1.outputBytes =
      m.outputBytes - (drop m type requestedBytes).2 := by
  unfold drop
  split
  · simp
  · cases type <;> rfl

theorem drop_maxOutputBytes (m : ManagedOutput) (type : StreamType) (requestedBytes : ℤ) :
    (drop m type requestedBytes).1.maxOutputBytes=m.maxOutputBytes := by
  unfold drop
  split
  · rfl
  · cases type <;> rfl

/-- The loop ends: each turn shortens the chunk lists or reaches the limit exactly. -/
def trimProcess (m : ManagedOutput) (retainedBytes : ℤ) : ManagedOutput × ℤ :=
  if m.outputBytes ≤ m.maxOutputBytes then (m,retainedBytes)
  else match _hstream : oldestStream m with
    | none => (m,retainedBytes)
    | some type =>
      let dropped:=drop m type (m.outputBytes - m.maxOutputBytes)
      trimProcess dropped.1 (retainedBytes - dropped.2)
termination_by 2*chunkCount m+if m.outputBytes ≤ m.maxOutputBytes then 0 else 1
decreasing_by
  next hover =>
  rw [drop_outputBytes,drop_maxOutputBytes]
  rcases drop_progress (m.outputBytes - m.maxOutputBytes) (oldestStream_chunks _hstream) with
    hfewer | ⟨hsame,hexact⟩
  · split <;> omega
  · rw [hsame,hexact]
    split <;> omega

structure ProcessManager where
  outputs : ℕ → ManagedOutput
  created : ℕ
  processes : List ℕ
  retainedBytes : ℤ
  aggregateOutputBytes : ℤ
  aggregateJournalRecords : ℤ
  outputSequence : ℕ

namespace ProcessManager

def init : ProcessManager where
  outputs _ := newOutput .session false 0
  created := 0
  processes := []
  retainedBytes := 0
  aggregateOutputBytes := 0
  aggregateJournalRecords := 0
  outputSequence := 0

def setOutput (s : ProcessManager) (id : ℕ) (m : ManagedOutput) : ProcessManager :=
  { s with outputs := Function.update s.outputs id m }

def aggregates (s : ProcessManager) : Aggregates :=
  ⟨s.aggregateOutputBytes,s.aggregateJournalRecords⟩

/-- The record and the aggregate counters after a journal operation on it. -/
def setJournaled (s : ProcessManager) (id : ℕ) (out : ManagedOutput × Aggregates) :
    ProcessManager :=
  { s.setOutput id out.1 with
    aggregateOutputBytes := out.2.outputBytes
    aggregateJournalRecords := out.2.journalRecords }

def firstSequence (s : ProcessManager) (at_ : ℕ × StreamType) : Option ℕ :=
  (((s.outputs at_.1).stream at_.2).chunks.head?).map (·.sequence)

/-- The stream of a tracked process whose first chunk came first. -/
def oldestChunk (s : ProcessManager) : Option (ℕ × StreamType) :=
  (s.processes.flatMap fun id => [(id,StreamType.stdout),(id,StreamType.stderr)]).foldl
    (fun oldest at_ =>
      match s.firstSequence at_,oldest with
      | none,_ => oldest
      | some _,none => some at_
      | some sequence,some best =>
        if sequence<(s.firstSequence best).getD 0 then some at_ else oldest) none

def dropFrom (s : ProcessManager) (id : ℕ) (type : StreamType) (requestedBytes : ℤ) :
    ProcessManager :=
  let dropped:=drop (s.outputs id) type requestedBytes
  { s.setOutput id dropped.1 with retainedBytes := s.retainedBytes - dropped.2 }

def trackedChunks (s : ProcessManager) : ℕ :=
  (s.processes.map fun id => chunkCount (s.outputs id)).sum

end ProcessManager

open ProcessManager

variable {s : ProcessManager}

theorem foldl_oldest {places : List (ℕ × StreamType)}
    {start found : Option (ℕ × StreamType)}
    (h : places.foldl (fun oldest at_ =>
      match s.firstSequence at_,oldest with
      | none,_ => oldest
      | some _,none => some at_
      | some sequence,some best =>
        if sequence<(s.firstSequence best).getD 0 then some at_ else oldest) start=found) :
    (∀ place, found=some place → start=some place ∨
      (place ∈ places ∧ s.firstSequence place≠none)) ∧
    (found=none → start=none ∧ ∀ place ∈ places, s.firstSequence place=none) := by
  induction places generalizing start with
  | nil =>
    subst h
    exact ⟨fun place hpla => .inl hpla,fun hnon => ⟨hnon,by simp⟩⟩
  | cons at_ places ih =>
    rw [foldl_cons] at h
    obtain ⟨hsom,hnon⟩ := ih h
    cases hseq : s.firstSequence at_ with
    | none =>
      simp only [hseq] at hsom hnon
      constructor
      · intro place hpla
        rcases hsom place hpla with hsta | ⟨hmem,hne⟩
        · exact .inl hsta
        · exact .inr ⟨mem_cons_of_mem _ hmem,hne⟩
      · intro hfou
        obtain ⟨hsta,hall⟩ := hnon hfou
        exact ⟨hsta,forall_mem_cons.2 ⟨hseq,hall⟩⟩
    | some sequence =>
      cases start with
      | none =>
        simp only [hseq] at hsom hnon
        constructor
        · intro place hpla
          rcases hsom place hpla with hsta | ⟨hmem,hne⟩
          · cases hsta
            exact .inr ⟨mem_cons_self,by simp [hseq]⟩
          · exact .inr ⟨mem_cons_of_mem _ hmem,hne⟩
        · intro hfou
          cases (hnon hfou).1
      | some best =>
        simp only [hseq] at hsom hnon
        constructor
        · intro place hpla
          rcases hsom place hpla with hsta | ⟨hmem,hne⟩
          · split at hsta
            · cases hsta
              exact .inr ⟨mem_cons_self,by simp [hseq]⟩
            · exact .inl hsta
          · exact .inr ⟨mem_cons_of_mem _ hmem,hne⟩
        · intro hfou
          have hsta:=(hnon hfou).1
          split at hsta <;> cases hsta

variable {place : ℕ × StreamType}

theorem firstSequence_eq_none :
    s.firstSequence place=none ↔ ((s.outputs place.1).stream place.2).chunks=[] := by
  simp [firstSequence]

theorem oldestChunk_some
    (h : s.oldestChunk=some place) :
    place.1 ∈ s.processes ∧ ((s.outputs place.1).stream place.2).chunks≠[] := by
  rcases (foldl_oldest h).1 place rfl with hsta | ⟨hmem,hne⟩
  · cases hsta
  · constructor
    · obtain ⟨id,hid,hplace⟩ := mem_flatMap.1 hmem
      rcases mem_cons.1 hplace with heq | hplace
      · rw [heq]
        exact hid
      · rw [mem_singleton.1 hplace]
        exact hid
    · exact fun hemp => hne (firstSequence_eq_none.2 hemp)

theorem oldestChunk_none (h : s.oldestChunk=none) {id : ℕ}
    (hid : id ∈ s.processes) (type : StreamType) : ((s.outputs id).stream type).chunks=[] := by
  have hseq : s.firstSequence (id,type)=none := by
    apply ((foldl_oldest h).2 rfl).2
    refine mem_flatMap.2 ⟨id,hid,?_⟩
    cases type <;> simp
  exact firstSequence_eq_none.1 hseq

theorem sum_map_lt {keys : List ℕ} {f g : ℕ → ℕ} (hle : ∀ k, f k≤g k) {k : ℕ} (hk : k ∈ keys)
    (hlt : f k<g k) : (keys.map f).sum<(keys.map g).sum := by
  induction keys with
  | nil => cases hk
  | cons j keys ih =>
    have hres : (keys.map f).sum≤(keys.map g).sum := by
      clear ih hk
      induction keys with
      | nil => exact Nat.le_refl _
      | cons i keys ih =>
        have := hle i
        simp only [map_cons,sum_cons]
        omega
    have hj:=hle j
    simp only [map_cons,sum_cons]
    rcases mem_cons.1 hk with heq | hmem
    · subst heq
      omega
    · have := ih hmem
      omega

theorem trackedChunks_dropFrom (requestedBytes : ℤ)
    (h : s.oldestChunk=some place) :
    (s.dropFrom place.1 place.2 requestedBytes).trackedChunks<s.trackedChunks ∨
      ((s.dropFrom place.1 place.2 requestedBytes).trackedChunks=s.trackedChunks ∧
        (s.dropFrom place.1 place.2 requestedBytes).retainedBytes =
          s.retainedBytes - requestedBytes) := by
  obtain ⟨hid,hchu⟩ := oldestChunk_some h
  have hoth (k : ℕ) (hk : k≠place.1) :
      (s.dropFrom place.1 place.2 requestedBytes).outputs k=s.outputs k :=
    Function.update_of_ne hk _ _
  have hsel : (s.dropFrom place.1 place.2 requestedBytes).outputs place.1 =
      (drop (s.outputs place.1) place.2 requestedBytes).1 := Function.update_self _ _ _
  rcases drop_progress requestedBytes hchu with hfew | ⟨hsam,hexa⟩
  · left
    apply sum_map_lt _ hid
    · rw [hsel]
      omega
    · intro k
      by_cases hk : k=place.1
      · rw [hk,hsel]
        omega
      · exact Nat.le_of_eq (congrArg chunkCount (hoth k hk))
  · right
    constructor
    · show (s.processes.map fun id => _).sum=_
      apply congrArg List.sum
      apply map_congr_left
      intro k _
      by_cases hk : k=place.1
      · rw [hk,hsel,hsam]
      · rw [hoth k hk]
    · show s.retainedBytes - (drop (s.outputs place.1) place.2 requestedBytes).2=_
      rw [hexa]

/-- The loop over all tracked processes; it ends for the same reason. -/
def trimGlobal (limits : OutputLimits) (s : ProcessManager) : ProcessManager :=
  if s.retainedBytes≤limits.maxRetainedOutputBytes then s
  else match _holdest : s.oldestChunk with
    | none => s
    | some place =>
      trimGlobal limits
        (s.dropFrom place.1 place.2 (s.retainedBytes - limits.maxRetainedOutputBytes))
termination_by 2*s.trackedChunks+if s.retainedBytes≤limits.maxRetainedOutputBytes then 0 else 1
decreasing_by
  rcases trackedChunks_dropFrom (s.retainedBytes - limits.maxRetainedOutputBytes) _holdest with
    hfewer | ⟨hsame,hexact⟩
  · split <;> omega
  · rw [hsame,hexact]
    split <;> omega

/-- The handler of a chunk of output. -/
def append (limits : OutputLimits) (s : ProcessManager) (id : ℕ) (type : StreamType)
    (chunk : List UInt8) (written : Bool) : ProcessManager :=
  if chunk=[] ∨ id ∉ s.processes then s
  else
    let s:=s.setJournaled id
      (appendJournal limits (s.outputs id) s.aggregates type chunk false written)
    let m:=s.outputs id
    let old:=m.stream type
    let m:={ m.setStream { old with
        chunks := old.chunks++[⟨chunk,s.outputSequence+1⟩]
        bytes := old.bytes+chunk.length } type with
      outputBytes := m.outputBytes+chunk.length }
    let trimmed:=trimProcess m (s.retainedBytes+chunk.length)
    trimGlobal limits { s.setOutput id trimmed.1 with
      retainedBytes := trimmed.2
      outputSequence := s.outputSequence+1 }

/-- The output is handed to the caller, whether or not the record is still tracked. -/
def consume (s : ProcessManager) (id : ℕ) : ProcessManager :=
  let m:=s.outputs id
  { s.setOutput id { m with stdout := emptyStream, stderr := emptyStream, outputBytes := 0 } with
    retainedBytes := s.retainedBytes - m.outputBytes }

/-- `persisted` says whether the record of a task can be written; where it cannot, the
function throws before it arms the timer. -/
def complete (limits : OutputLimits) (s : ProcessManager) (id : ℕ)
    (stdoutWritten stderrWritten persisted : Bool) : ProcessManager :=
  if (s.outputs id).completed then s
  else
    let s:=s.setJournaled id
      (appendJournal limits (s.outputs id) s.aggregates .stdout [] true stdoutWritten)
    let s:=s.setJournaled id
      (appendJournal limits (s.outputs id) s.aggregates .stderr [] true stderrWritten)
    let m : ManagedOutput := { s.outputs id with completed := true, outputFileClosed := true }
    if m.lifecycle=.task ∧ persisted=false then s.setOutput id m
    else s.setOutput id { m with outputCleanupTimer := true }

def cleanupOutput (s : ProcessManager) (id : ℕ) : ProcessManager :=
  let m:=s.outputs id
  { s.setOutput id { m with fullOutputBytes := 0, cleanedUp := true } with
    aggregateOutputBytes :=
      if 0 < m.fullOutputBytes then max 0 (s.aggregateOutputBytes - m.fullOutputBytes)
      else s.aggregateOutputBytes }

/-- The row of a record that is deleted: its output file may outlive it. -/
def deletedOutput (m : ManagedOutput) (preserveOutput : Bool) : ManagedOutput :=
  { m with
    outputBytes := 0
    stdout := { m.stdout with chunks := [] }
    stderr := { m.stderr with chunks := [] }
    journal := []
    outputFileClosed := true
    outputCleanupTimer := m.outputCleanupTimer || preserveOutput }

def deleteRecord (s : ProcessManager) (id : ℕ) (preserveOutput : Bool) : ProcessManager :=
  if id ∉ s.processes then s
  else
    let m:=s.outputs id
    let s:={ s.setOutput id (deletedOutput m preserveOutput) with
      retainedBytes := s.retainedBytes - m.outputBytes
      aggregateJournalRecords := max 0 (s.aggregateJournalRecords - m.journal.length)
      processes := s.processes.erase id }
    if preserveOutput then s else cleanupOutput s id

/-- A new record; a restart of a service keeps its record as it is. -/
def start (s : ProcessManager) (lifecycle : ProcessLifecycle) (compatibilitySession : Bool)
    (maxOutputBytes : ℕ) : ProcessManager :=
  { s.setOutput s.created (newOutput lifecycle compatibilitySession maxOutputBytes) with
    created := s.created+1
    processes := s.processes++[s.created] }

inductive OutputAction where
  | start (lifecycle : ProcessLifecycle) (compatibilitySession : Bool) (maxOutputBytes : ℕ)
  | append (id : ℕ) (type : StreamType) (chunk : List UInt8) (written : Bool)
  | consume (id : ℕ)
  | complete (id : ℕ) (stdoutWritten stderrWritten persisted : Bool)
  | deleteRecord (id : ℕ) (preserveOutput : Bool)
  | outputExpired (id : ℕ)
  deriving DecidableEq, Repr

/-- Handlers, calls and timers in any order, for any record ever created.  Stopping, a
revoked lease, expiry and pruning all delete records; which one they choose is left
open, and a cleanup timer may also fire after it was cancelled. -/
def outputStep (limits : OutputLimits) (s : ProcessManager) : OutputAction → Option ProcessManager
  | .start lifecycle compatibilitySession maxOutputBytes =>
    some (start s lifecycle compatibilitySession maxOutputBytes)
  | .append id type chunk written =>
    if id<s.created then some (append limits s id type chunk written) else none
  | .consume id => if id<s.created then some (consume s id) else none
  | .complete id stdoutWritten stderrWritten persisted =>
    if id<s.created then some (complete limits s id stdoutWritten stderrWritten persisted)
    else none
  | .deleteRecord id preserveOutput =>
    if id<s.created then some (deleteRecord s id preserveOutput) else none
  | .outputExpired id =>
    if id<s.created ∧ (s.outputs id).outputCleanupTimer=true then some (cleanupOutput s id)
    else none

def outputSystem (limits : OutputLimits) : TransitionSystem ProcessManager OutputAction where
  initial s := s=ProcessManager.init
  step := outputStep limits

end Qubicl.Control.Process
