import Qubicl.Control.Process.Output
import Qubicl.Foundation.Ledger

/-!
# Accounting of process output

The counters of the manager are the sums they stand for, in every reachable state.
-/

namespace Qubicl.Control.Process
open Qubicl.Foundation ProcessManager List Option

def streamBytes (stream : RetainedStream) : ℤ :=
  ((stream.chunks.map (·.data.length)).sum : ℕ)

/-- `outputBytes` is what the chunks hold. -/
def BytesKept (m : ManagedOutput) : Prop :=
  m.outputBytes=streamBytes m.stdout+streamBytes m.stderr

structure RowOk (m : ManagedOutput) : Prop where
  bytes : BytesKept m
  within : m.outputBytes ≤ m.maxOutputBytes
  timer : m.outputCleanupTimer=true → m.outputFileClosed=true
  cleaned : m.cleanedUp=true → m.fullOutputBytes=0 ∧ m.outputFileClosed=true

/-- Nothing but the retained chunks changed. -/
def Retrimmed (m m' : ManagedOutput) : Prop :=
  ∃ out err bytes, m' = { m with stdout := out, stderr := err, outputBytes := bytes }

theorem Retrimmed.refl (m : ManagedOutput) : Retrimmed m m := ⟨m.stdout,m.stderr,m.outputBytes,rfl⟩

variable {m' m'' : ManagedOutput} {requestedBytes : ℤ} {limits : OutputLimits}

theorem Retrimmed.trans {m : ManagedOutput} (h : Retrimmed m m') (h' : Retrimmed m' m'') : Retrimmed m m'' := by
  obtain ⟨_,_,_,rfl⟩ := h
  obtain ⟨out,err,bytes,rfl⟩ := h'
  exact ⟨out,err,bytes,rfl⟩

theorem drop_retrimmed (m : ManagedOutput) (type : StreamType) (requestedBytes : ℤ) :
    Retrimmed m (drop m type requestedBytes).1 := by
  unfold drop
  split
  · exact .refl m
  · cases type
    · exact ⟨_,_,_,rfl⟩
    · exact ⟨_,_,_,rfl⟩

variable {m : ManagedOutput}

theorem drop_bytesKept (type : StreamType) (h : BytesKept m) (hreq : 0≤requestedBytes) :
    BytesKept (drop m type requestedBytes).1 := by
  unfold BytesKept at h
  unfold BytesKept drop
  cases hchu : (m.stream type).chunks with
  | nil => exact h
  | cons first rest =>
    have hcut : streamBytes ⟨if min requestedBytes (first.data.length : ℤ)=first.data.length
        then rest else (⟨first.data.drop (min requestedBytes (first.data.length : ℤ)).toNat,
          first.sequence⟩ : OutputChunk)::rest,
        (m.stream type).bytes - min requestedBytes (first.data.length : ℤ),true⟩ =
        streamBytes (m.stream type) - min requestedBytes (first.data.length : ℤ) := by
      have hold : streamBytes (m.stream type) =
          first.data.length+((rest.map (·.data.length)).sum : ℕ) := by
        simp [streamBytes,hchu]
      rw [hold]
      by_cases hall : min requestedBytes (first.data.length : ℤ)=first.data.length
      · rw [if_pos hall,hall]
        simp only [streamBytes]
        omega
      · rw [if_neg hall]
        simp only [streamBytes,map_cons,sum_cons,length_drop]
        omega
    cases type with
    | stdout =>
      simp only [ManagedOutput.stream] at hcut
      simp only [ManagedOutput.setStream,ManagedOutput.stream,hcut]
      omega
    | stderr =>
      simp only [ManagedOutput.stream] at hcut
      simp only [ManagedOutput.setStream,ManagedOutput.stream,hcut]
      omega

theorem oldestStream_none (h : oldestStream m=none) :
    m.stdout.chunks=[] ∧ m.stderr.chunks=[] := by
  unfold oldestStream at h
  split at h
  · next hout herr => exact ⟨hout,herr⟩
  · cases h
  · cases h
  · cases h

theorem trimProcess_spec (m : ManagedOutput) (retainedBytes : ℤ) (h : BytesKept m) :
    Retrimmed m (trimProcess m retainedBytes).1 ∧ BytesKept (trimProcess m retainedBytes).1 ∧
      (trimProcess m retainedBytes).1.outputBytes ≤ m.maxOutputBytes ∧
      (trimProcess m retainedBytes).2 - retainedBytes =
        (trimProcess m retainedBytes).1.outputBytes - m.outputBytes := by
  induction m, retainedBytes using trimProcess.induct with
  | case1 m retainedBytes hle =>
    rw [trimProcess,if_pos hle]
    exact ⟨.refl m,h,hle,by rw [Int.sub_self,Int.sub_self]⟩
  | case2 m retainedBytes hove hnon =>
    obtain ⟨hout,herr⟩ := oldestStream_none hnon
    have hzer : m.outputBytes=0 := by
      rw [h,streamBytes,streamBytes,hout,herr]
      rfl
    exact absurd (by omega) hove
  | case3 m retainedBytes hove type hsom dropped ih =>
    have hkep : BytesKept dropped.1 := drop_bytesKept type h (by omega)
    have htri : trimProcess m retainedBytes =
        trimProcess dropped.1 (retainedBytes - dropped.2) := by
      rw [trimProcess,if_neg hove]
      split
      · next hnon => rw [hnon] at hsom; cases hsom
      · next type' hsom' =>
        rw [hsom'] at hsom
        cases hsom
        rfl
    obtain ⟨hfra,hbyt,hle,hsum⟩ := ih hkep
    have hdro : dropped.1.outputBytes=m.outputBytes - dropped.2 := drop_outputBytes m type _
    have hmax : dropped.1.maxOutputBytes=m.maxOutputBytes := drop_maxOutputBytes m type _
    rw [htri]
    refine ⟨(drop_retrimmed m type _).trans hfra,hbyt,?_,by omega⟩
    rw [← hmax]
    exact hle

/-- Nothing but the journal and its file changed. -/
def Journaled (m m' : ManagedOutput) : Prop :=
  ∃ truncated full journal p q, m' = { m with
    outputFileTruncated := truncated, fullOutputBytes := full, journal := journal
    stdoutPending := p, stderrPending := q }

theorem Journaled.refl (m : ManagedOutput) : Journaled m m := ⟨_,_,_,_,_,rfl⟩

theorem Journaled.trans (h : Journaled m m') (h' : Journaled m' m'') : Journaled m m'' := by
  obtain ⟨_,_,_,_,_,rfl⟩ := h
  obtain ⟨_,_,_,_,_,rfl⟩ := h'
  exact ⟨_,_,_,_,_,rfl⟩

/-- A journal operation moves the two aggregates by as much as the row. -/
structure JournalMove (m : ManagedOutput) (agg : Aggregates) (out : ManagedOutput × Aggregates) :
    Prop where
  frame : Journaled m out.1
  files : out.2.outputBytes=agg.outputBytes+(out.1.fullOutputBytes - m.fullOutputBytes)
  records : out.2.journalRecords=agg.journalRecords+(out.1.journal.length - m.journal.length)

theorem JournalMove.still (m : ManagedOutput) (agg : Aggregates) : JournalMove m agg (m,agg) :=
  ⟨.refl m,by simp,by simp⟩

theorem appendJournalBytes_move (limits : OutputLimits) (m : ManagedOutput) (agg : Aggregates)
    (type : StreamType) (complete : List UInt8) (preserveUtf8Boundary written : Bool) :
    JournalMove m agg
      (appendJournalBytes limits m agg type complete preserveUtf8Boundary written) := by
  unfold appendJournalBytes writeJournal
  split
  · exact ⟨⟨_,_,_,_,_,rfl⟩,by simp,by simp⟩
  · split
    · dsimp only
      refine ⟨?_,?_,?_⟩
      · split
        · exact ⟨_,_,_,_,_,rfl⟩
        · exact ⟨_,_,_,_,_,rfl⟩
      · split
        · push_cast
          omega
        · push_cast
          omega
      · split
        · simp only [length_append]
          push_cast
          omega
        · simp only [length_append]
          push_cast
          omega
    · exact ⟨⟨_,_,_,_,_,rfl⟩,by simp,by simp⟩

theorem setPending_journaled (m : ManagedOutput) (data : List UInt8) (type : StreamType) :
    Journaled m (m.setPending data type) := by
  cases type
  · exact ⟨_,_,_,_,_,rfl⟩
  · exact ⟨_,_,_,_,_,rfl⟩

@[simp] theorem setPending_fullOutputBytes (m : ManagedOutput) (data : List UInt8)
    (type : StreamType) : (m.setPending data type).fullOutputBytes=m.fullOutputBytes := by
  cases type <;> rfl

@[simp] theorem setPending_journal (m : ManagedOutput) (data : List UInt8) (type : StreamType) :
    (m.setPending data type).journal=m.journal := by
  cases type <;> rfl

theorem appendJournal_move (limits : OutputLimits) (m : ManagedOutput) (agg : Aggregates)
    (type : StreamType) (chunk : List UInt8) (final written : Bool) :
    JournalMove m agg (appendJournal limits m agg type chunk final written) := by
  unfold appendJournal
  split
  · exact .still m agg
  · split
    · split
      · exact .still m agg
      · exact appendJournalBytes_move limits m agg type chunk false written
    · dsimp only
      generalize (if final=true then (m.pending type++chunk).length
        else completeUtf8PrefixLength (m.pending type++chunk))=completeBytes
      split
      · exact ⟨setPending_journaled m _ type,by simp,by simp⟩
      · obtain ⟨hfra,hfil,hrec⟩ := appendJournalBytes_move limits
          (m.setPending ((m.pending type++chunk).drop completeBytes) type) agg type
          ((m.pending type++chunk).take completeBytes) true written
        rw [setPending_fullOutputBytes] at hfil
        rw [setPending_journal] at hrec
        exact ⟨(setPending_journaled m _ type).trans hfra,hfil,hrec⟩

theorem appendJournal_closed {agg : Aggregates} {type : StreamType} {chunk : List UInt8} {final written : Bool}
    (h : m.outputFileClosed=true) : appendJournal limits m agg type chunk final written=(m,agg) := by
  rw [appendJournal,if_pos (.inr h)]

structure Counted (s : ProcessManager) : Prop where
  nodup : s.processes.Nodup
  tracked : ∀ id ∈ s.processes, id<s.created
  rows : ∀ id, RowOk (s.outputs id)
  untracked : ∀ id<s.created, id ∉ s.processes → (s.outputs id).outputBytes=0 ∧
    (s.outputs id).journal=[] ∧ (s.outputs id).outputFileClosed=true
  retained : s.retainedBytes=ledgerSum s.processes fun id => (s.outputs id).outputBytes
  records : s.aggregateJournalRecords =
    ledgerSum s.processes fun id => (s.outputs id).journal.length
  files : s.aggregateOutputBytes =
    ledgerSum (List.range s.created) fun id => (s.outputs id).fullOutputBytes

variable {s : ProcessManager} {id : ℕ}

theorem Counted.row (h : Counted s) (hid : id<s.created) (hm : RowOk m)
    (hidl : id ∉ s.processes → m.outputBytes=0 ∧ m.journal=[] ∧ m.outputFileClosed=true)
    {retainedBytes aggregateOutputBytes aggregateJournalRecords : ℤ} (sequence : ℕ)
    (hret : retainedBytes=s.retainedBytes+(m.outputBytes - (s.outputs id).outputBytes))
    (hfil : aggregateOutputBytes =
      s.aggregateOutputBytes+(m.fullOutputBytes - (s.outputs id).fullOutputBytes))
    (hrec : aggregateJournalRecords =
      s.aggregateJournalRecords+(m.journal.length - (s.outputs id).journal.length)) :
    Counted ⟨Function.update s.outputs id m,s.created,s.processes,retainedBytes,
      aggregateOutputBytes,aggregateJournalRecords,sequence⟩ := by
  have hran : id ∈ List.range s.created := mem_range.2 hid
  refine ⟨h.nodup,h.tracked,?_,?_,?_,?_,?_⟩
  · intro k
    show RowOk (Function.update s.outputs id m k)
    by_cases hk : k=id
    · subst hk
      rw [Function.update_self]
      exact hm
    · rw [Function.update_of_ne hk]
      exact h.rows k
  · intro k hlt hk
    dsimp only at hlt hk ⊢
    by_cases hsel : k=id
    · subst hsel
      rw [Function.update_self]
      exact hidl hk
    · rw [Function.update_of_ne hsel]
      exact h.untracked k hlt hk
  · show retainedBytes=ledgerSum s.processes fun k => (Function.update s.outputs id m k).outputBytes
    by_cases hmem : id ∈ s.processes
    · rw [ledgerSum_update h.nodup hmem ManagedOutput.outputBytes,hret,h.retained]
    · rw [ledgerSum_update_of_notMem hmem ManagedOutput.outputBytes,hret,h.retained,(hidl hmem).1,
        (h.untracked id hid hmem).1]
      omega
  · show aggregateJournalRecords=ledgerSum s.processes fun k =>
      ((Function.update s.outputs id m k).journal.length : ℤ)
    by_cases hmem : id ∈ s.processes
    · rw [ledgerSum_update h.nodup hmem fun row : ManagedOutput => (row.journal.length : ℤ),hrec,h.records]
    · rw [ledgerSum_update_of_notMem hmem fun row : ManagedOutput => (row.journal.length : ℤ),hrec,h.records,
        (hidl hmem).2.1,(h.untracked id hid hmem).2.1]
      omega
  · show aggregateOutputBytes=ledgerSum (List.range s.created) fun k =>
      ((Function.update s.outputs id m k).fullOutputBytes : ℤ)
    rw [ledgerSum_update nodup_range hran fun row : ManagedOutput => (row.fullOutputBytes : ℤ),hfil,
      h.files]

theorem rowOk_new (lifecycle : ProcessLifecycle) (compatibilitySession : Bool)
    (maxOutputBytes : ℕ) : RowOk (newOutput lifecycle compatibilitySession maxOutputBytes) :=
  ⟨rfl,Int.natCast_nonneg _,nofun,nofun⟩

theorem counted_init : Counted ProcessManager.init where
  nodup := nodup_nil
  tracked _ h := nomatch h
  rows _ := rowOk_new .session false 0
  untracked _ h := absurd h (Nat.not_lt_zero _)
  retained := rfl
  records := rfl
  files := rfl

theorem Counted.start (h : Counted s) (lifecycle : ProcessLifecycle)
    (compatibilitySession : Bool) (maxOutputBytes : ℕ) :
    Counted (start s lifecycle compatibilitySession maxOutputBytes) := by
  have hfre : s.created ∉ s.processes := fun hmem => Nat.lt_irrefl _ (h.tracked _ hmem)
  have hran : s.created ∉ List.range s.created := by simp
  refine ⟨?_,?_,?_,?_,?_,?_,?_⟩
  · show (s.processes++[s.created]).Nodup
    rw [← concat_eq_append,nodup_concat]
    exact ⟨hfre,h.nodup⟩
  · intro id hid
    show id<s.created+1
    rcases mem_append.1 hid with hold | hnew
    · have := h.tracked id hold
      omega
    · have := mem_singleton.1 hnew
      omega
  · intro id
    show RowOk (Function.update s.outputs s.created _ id)
    by_cases hid : id=s.created
    · subst hid
      rw [Function.update_self]
      exact rowOk_new _ _ _
    · rw [Function.update_of_ne hid]
      exact h.rows id
  · intro id hlt hid
    have hlt : id<s.created+1 := hlt
    have hid : id ∉ s.processes ∧ id≠s.created := by simpa [Process.start] using hid
    show (Function.update s.outputs s.created _ id).outputBytes=0 ∧ _
    simp only [Process.start,setOutput,Function.update_of_ne hid.2]
    exact h.untracked id (by omega) hid.1
  · show s.retainedBytes=ledgerSum (s.processes++[s.created]) fun k =>
      (Function.update s.outputs s.created _ k).outputBytes
    rw [ledgerSum_append,ledgerSum_update_of_notMem hfre ManagedOutput.outputBytes,h.retained]
    simp [newOutput]
  · show s.aggregateJournalRecords=ledgerSum (s.processes++[s.created]) fun k =>
      ((Function.update s.outputs s.created _ k).journal.length : ℤ)
    rw [ledgerSum_append,ledgerSum_update_of_notMem hfre fun row : ManagedOutput => (row.journal.length : ℤ),
      h.records]
    simp [newOutput]
  · show s.aggregateOutputBytes=ledgerSum (List.range (s.created+1)) fun k =>
      ((Function.update s.outputs s.created _ k).fullOutputBytes : ℤ)
    rw [range_succ,ledgerSum_append,
      ledgerSum_update_of_notMem hran fun row : ManagedOutput => (row.fullOutputBytes : ℤ),h.files]
    simp [newOutput]

theorem RowOk.retrimmed (h : RowOk m) (hfra : Retrimmed m m') (hbyt : BytesKept m')
    (hle : m'.outputBytes ≤ m'.maxOutputBytes) : RowOk m' := by
  obtain ⟨_,_,_,rfl⟩ := hfra
  exact ⟨hbyt,hle,h.timer,h.cleaned⟩

theorem drop_nonneg (m : ManagedOutput) (type : StreamType) (hreq : 0≤requestedBytes) :
    0≤(drop m type requestedBytes).2 := by
  unfold drop
  split
  · exact Int.le_refl 0
  · next first rest _ =>
    show 0 ≤ min requestedBytes (first.data.length : ℤ)
    omega

theorem Counted.dropFrom (h : Counted s) {place : ℕ × StreamType} (hreq : 0≤requestedBytes)
    (hpla : place.1 ∈ s.processes) : Counted (s.dropFrom place.1 place.2 requestedBytes) := by
  have hrow:=h.rows place.1
  have hfra:=drop_retrimmed (s.outputs place.1) place.2 requestedBytes
  have hbyt:=drop_bytesKept place.2 hrow.bytes hreq
  have hout:=drop_outputBytes (s.outputs place.1) place.2 requestedBytes
  have hmax:=drop_maxOutputBytes (s.outputs place.1) place.2 requestedBytes
  have hnon:=drop_nonneg (s.outputs place.1) place.2 hreq
  have hwit:=hrow.within
  have hsam : (drop (s.outputs place.1) place.2 requestedBytes).1.journal =
      (s.outputs place.1).journal ∧
      (drop (s.outputs place.1) place.2 requestedBytes).1.fullOutputBytes =
        (s.outputs place.1).fullOutputBytes := by
    obtain ⟨_,_,_,hm⟩ := hfra
    rw [hm]
    exact ⟨rfl,rfl⟩
  apply h.row (h.tracked _ hpla) (hrow.retrimmed hfra hbyt (by omega))
    (fun habs => absurd hpla habs) s.outputSequence
  · show s.retainedBytes - _=_
    omega
  · rw [hsam.2]
    show s.aggregateOutputBytes=_
    omega
  · rw [hsam.1]
    show s.aggregateJournalRecords=_
    omega

/-- The loop over all processes keeps the sums and meets the limit: were nothing left
to drop, nothing would be retained. -/
theorem trimGlobal_spec (limits : OutputLimits) (s : ProcessManager) (h : Counted s) :
    Counted (trimGlobal limits s) ∧
      (trimGlobal limits s).retainedBytes≤limits.maxRetainedOutputBytes := by
  induction s using trimGlobal.induct limits with
  | case1 s hle =>
    rw [trimGlobal,if_pos hle]
    exact ⟨h,hle⟩
  | case2 s hove hnon =>
    have hzer : s.retainedBytes=0 := by
      rw [h.retained]
      apply ledgerSum_zero
      intro id hid
      have hbyt:=(h.rows id).bytes
      have hout:=oldestChunk_none hnon hid .stdout
      have herr:=oldestChunk_none hnon hid .stderr
      simp only [ManagedOutput.stream] at hout herr
      rw [hbyt,streamBytes,streamBytes,hout,herr]
      rfl
    exact absurd (by omega) hove
  | case3 s hove place hsom ih =>
    have htri : trimGlobal limits s=trimGlobal limits
        (s.dropFrom place.1 place.2 (s.retainedBytes - limits.maxRetainedOutputBytes)) := by
      rw [trimGlobal,if_neg hove]
      split
      · next hnon => rw [hnon] at hsom; cases hsom
      · next place' hsom' =>
        rw [hsom'] at hsom
        cases hsom
        rfl
    rw [htri]
    exact ih (h.dropFrom (by omega) (oldestChunk_some hsom).1)

theorem RowOk.journaled {agg : Aggregates} {out : ManagedOutput × Aggregates}
    (h : RowOk m) (hmov : JournalMove m agg out) (hope : m.outputFileClosed=false) :
    RowOk out.1 := by
  obtain ⟨_,_,_,_,_,hm⟩ := hmov.frame
  rw [hm]
  refine ⟨h.bytes,h.within,h.timer,?_⟩
  intro hcle
  rw [(h.cleaned hcle).2] at hope
  cases hope

theorem Journaled.outputBytes (h : Journaled m m') :
    m'.outputBytes=m.outputBytes ∧ m'.outputFileClosed=m.outputFileClosed := by
  obtain ⟨_,_,_,_,_,rfl⟩ := h
  exact ⟨rfl,rfl⟩

theorem Counted.journaled (h : Counted s) (hid : id<s.created)
    (limits : OutputLimits) (type : StreamType) (chunk : List UInt8) (final written : Bool) :
    Counted (s.setJournaled id
      (appendJournal limits (s.outputs id) s.aggregates type chunk final written)) := by
  have hmov:=appendJournal_move limits (s.outputs id) s.aggregates type chunk final written
  have hrow : RowOk (appendJournal limits (s.outputs id) s.aggregates type chunk final written).1 := by
    cases hclo : (s.outputs id).outputFileClosed with
    | true =>
      rw [appendJournal_closed hclo]
      exact h.rows id
    | false => exact (h.rows id).journaled hmov hclo
  have hbyt:=hmov.frame.outputBytes
  apply h.row hid hrow
  · intro habs
    have hidl:=h.untracked id hid habs
    rw [appendJournal_closed hidl.2.2]
    exact hidl
  · show s.retainedBytes=_
    rw [hbyt.1]
    omega
  · exact hmov.files
  · exact hmov.records

theorem streamBytes_nonneg (stream : RetainedStream) : 0 ≤ streamBytes stream :=
  Int.natCast_nonneg _

theorem RowOk.outputBytes_nonneg (h : RowOk m) : 0 ≤ m.outputBytes := by
  have hbyt:=h.bytes
  have hout:=streamBytes_nonneg m.stdout
  have herr:=streamBytes_nonneg m.stderr
  unfold BytesKept at hbyt
  omega

section
variable (h : Counted s)
include h

theorem Counted.append (limits : OutputLimits) (id : ℕ)
    (type : StreamType) (chunk : List UInt8) (written : Bool) :
    Counted (append limits s id type chunk written) ∧
      (s.retainedBytes≤limits.maxRetainedOutputBytes →
        (append limits s id type chunk written).retainedBytes≤limits.maxRetainedOutputBytes) := by
  unfold Process.append
  split
  · exact ⟨h,fun hle => hle⟩
  · next hrea =>
    have hmem : id ∈ s.processes := by
      by_contra habs
      exact hrea (.inr habs)
    have hid:=h.tracked id hmem
    have hjou:=h.journaled hid limits type chunk false written
    dsimp only
    generalize hs1 : s.setJournaled id
      (appendJournal limits (s.outputs id) s.aggregates type chunk false written)=s1 at hjou
    have hmem1 : id ∈ s1.processes := by
      rw [← hs1]
      exact hmem
    have hrow:=hjou.rows id
    -- the chunk is counted before the limits are restored
    generalize hpus : ({ (s1.outputs id).setStream { (s1.outputs id).stream type with
        chunks := ((s1.outputs id).stream type).chunks++[⟨chunk,s1.outputSequence+1⟩]
        bytes := ((s1.outputs id).stream type).bytes+chunk.length } type with
      outputBytes := (s1.outputs id).outputBytes+chunk.length } : ManagedOutput)=pushed
    have hfra : Retrimmed (s1.outputs id) pushed := by
      rw [← hpus]
      cases type
      · exact ⟨_,_,_,rfl⟩
      · exact ⟨_,_,_,rfl⟩
    have hkep : BytesKept pushed := by
      have hbyt:=hrow.bytes
      unfold BytesKept streamBytes at hbyt
      rw [← hpus]
      unfold BytesKept streamBytes
      cases type with
      | stdout =>
        simp only [ManagedOutput.setStream,ManagedOutput.stream,map_append,sum_append,
          map_cons,map_nil,sum_cons,sum_nil]
        omega
      | stderr =>
        simp only [ManagedOutput.setStream,ManagedOutput.stream,map_append,sum_append,
          map_cons,map_nil,sum_cons,sum_nil]
        omega
    have hadd : pushed.outputBytes=(s1.outputs id).outputBytes+chunk.length := by
      rw [← hpus]
    obtain ⟨htri,hbyt,hle,hsum⟩ :=
      trimProcess_spec pushed (s1.retainedBytes+chunk.length) hkep
    have hall:=hfra.trans htri
    have hsam : pushed.maxOutputBytes =
        (trimProcess pushed (s1.retainedBytes+chunk.length)).1.maxOutputBytes := by
      obtain ⟨_,_,_,hm⟩ := htri
      rw [hm]
    have hful : (trimProcess pushed (s1.retainedBytes+chunk.length)).1.fullOutputBytes =
        (s1.outputs id).fullOutputBytes ∧
        (trimProcess pushed (s1.retainedBytes+chunk.length)).1.journal =
          (s1.outputs id).journal := by
      obtain ⟨_,_,_,hm⟩ := hall
      rw [hm]
      exact ⟨rfl,rfl⟩
    have htrimmedRow:=hrow.retrimmed hall hbyt (by rw [← hsam]; exact hle)
    generalize trimProcess pushed (s1.retainedBytes+chunk.length)=trimmed at *
    have hcou : Counted ⟨Function.update s1.outputs id trimmed.1,s1.created,s1.processes,
        trimmed.2,s1.aggregateOutputBytes,s1.aggregateJournalRecords,s1.outputSequence+1⟩ := by
      apply hjou.row (hjou.tracked id hmem1) htrimmedRow
        (fun habs => absurd hmem1 habs)
      · omega
      · rw [hful.1]
        omega
      · rw [hful.2]
        omega
    have hglo:=trimGlobal_spec limits _ hcou
    exact ⟨hglo.1,fun _ => hglo.2⟩

theorem Counted.consume (hid : id<s.created) :
    Counted (consume s id) ∧ (consume s id).retainedBytes ≤ s.retainedBytes := by
  have hrow:=h.rows id
  have hnon:=hrow.outputBytes_nonneg
  have hrow' : RowOk { s.outputs id with
      stdout := emptyStream, stderr := emptyStream, outputBytes := 0 } :=
    ⟨rfl,Int.natCast_nonneg _,hrow.timer,hrow.cleaned⟩
  constructor
  · apply h.row hid hrow' _ s.outputSequence
    · show s.retainedBytes - (s.outputs id).outputBytes=_
      dsimp only
      omega
    · show s.aggregateOutputBytes=_
      simp
    · show s.aggregateJournalRecords=_
      simp
    · intro habs
      have hidl:=h.untracked id hid habs
      exact ⟨rfl,hidl.2⟩
  · show s.retainedBytes - (s.outputs id).outputBytes ≤ s.retainedBytes
    omega

theorem Counted.close (hid : id<s.created)
    (timer : Bool) : Counted (s.setOutput id { s.outputs id with
      completed := true, outputFileClosed := true, outputCleanupTimer := timer }) := by
  have hrow:=h.rows id
  have hrow' : RowOk { s.outputs id with
      completed := true, outputFileClosed := true, outputCleanupTimer := timer } :=
    ⟨hrow.bytes,hrow.within,fun _ => rfl,fun hc => ⟨(hrow.cleaned hc).1,rfl⟩⟩
  apply h.row hid hrow' _ s.outputSequence
  · show s.retainedBytes=_
    simp
  · show s.aggregateOutputBytes=_
    simp
  · show s.aggregateJournalRecords=_
    simp
  · intro habs
    have hidl:=h.untracked id hid habs
    exact ⟨hidl.1,hidl.2.1,rfl⟩

theorem Counted.complete (hid : id<s.created)
    (limits : OutputLimits) (stdoutWritten stderrWritten persisted : Bool) :
    Counted (complete limits s id stdoutWritten stderrWritten persisted) ∧
      (complete limits s id stdoutWritten stderrWritten persisted).retainedBytes =
        s.retainedBytes := by
  unfold Process.complete
  split
  · exact ⟨h,rfl⟩
  · have h1:=h.journaled hid limits .stdout [] true stdoutWritten
    have h2:=h1.journaled hid limits .stderr [] true stderrWritten
    dsimp only
    split
    · exact ⟨h2.close hid _,rfl⟩
    · exact ⟨h2.close hid true,rfl⟩

theorem Counted.cleanupOutput (hid : id<s.created)
    (hclo : (s.outputs id).outputFileClosed=true) : Counted (cleanupOutput s id) := by
  have hrow:=h.rows id
  have hfil : ((s.outputs id).fullOutputBytes : ℤ) ≤ s.aggregateOutputBytes := by
    rw [h.files]
    exact le_ledgerSum (fun k _ => Int.natCast_nonneg _) (mem_range.2 hid)
  have hrow' : RowOk { s.outputs id with fullOutputBytes := 0, cleanedUp := true } :=
    ⟨hrow.bytes,hrow.within,hrow.timer,fun _ => ⟨rfl,hclo⟩⟩
  apply h.row hid hrow' _ s.outputSequence
  · show s.retainedBytes=_
    simp
  · show (if 0<(s.outputs id).fullOutputBytes then _ else _)=_
    split
    · push_cast
      omega
    · push_cast
      omega
  · show s.aggregateJournalRecords=_
    simp
  · exact h.untracked id hid

theorem Counted.erase (hid : id ∈ s.processes)
    (hidl : (s.outputs id).outputBytes=0 ∧ (s.outputs id).journal=[] ∧
      (s.outputs id).outputFileClosed=true) :
    Counted { s with processes := s.processes.erase id } where
  nodup := h.nodup.erase id
  tracked k hk := h.tracked k (mem_of_mem_erase hk)
  rows := h.rows
  untracked k hlt hk := by
    by_cases hsel : k=id
    · subst hsel
      exact hidl
    · exact h.untracked k hlt fun hmem => hk ((mem_erase_of_ne hsel).2 hmem)
  retained := by
    show s.retainedBytes=ledgerSum (s.processes.erase id) fun k => (s.outputs k).outputBytes
    rw [ledgerSum_erase hid,hidl.1,h.retained]
    omega
  records := by
    show s.aggregateJournalRecords =
      ledgerSum (s.processes.erase id) fun k => ((s.outputs k).journal.length : ℤ)
    rw [ledgerSum_erase hid,hidl.2.1,h.records]
    simp
  files := h.files

theorem Counted.deleteRecord (id : ℕ)
    (preserveOutput : Bool) : Counted (deleteRecord s id preserveOutput) ∧
      (deleteRecord s id preserveOutput).retainedBytes ≤ s.retainedBytes := by
  unfold Process.deleteRecord
  split
  · exact ⟨h,Int.le_refl _⟩
  · next hmem =>
    have hmem : id ∈ s.processes := by
      by_contra habs
      exact hmem habs
    have hid:=h.tracked id hmem
    have hrow:=h.rows id
    have hnon:=hrow.outputBytes_nonneg
    have hjou : ((s.outputs id).journal.length : ℤ) ≤ s.aggregateJournalRecords := by
      rw [h.records]
      exact le_ledgerSum (fun k _ => Int.natCast_nonneg _) hmem
    dsimp only
    generalize hm : deletedOutput (s.outputs id) preserveOutput=m
    have hidl : m.outputBytes=0 ∧ m.journal=[] ∧ m.outputFileClosed=true := by
      rw [← hm]
      exact ⟨rfl,rfl,rfl⟩
    have hmro : RowOk m := by
      rw [← hm]
      exact ⟨rfl,Int.natCast_nonneg _,fun _ => rfl,fun hc => ⟨(hrow.cleaned hc).1,rfl⟩⟩
    have hful : m.fullOutputBytes=(s.outputs id).fullOutputBytes := by
      rw [← hm]
      rfl
    have hcha : Counted ⟨Function.update s.outputs id m,s.created,s.processes,
        s.retainedBytes - (s.outputs id).outputBytes,s.aggregateOutputBytes,
        max 0 (s.aggregateJournalRecords - (s.outputs id).journal.length),s.outputSequence⟩ := by
      apply h.row hid hmro (fun _ => hidl) s.outputSequence
      · rw [hidl.1]
        omega
      · rw [hful]
        omega
      · rw [hidl.2.1,length_nil]
        omega
    have hsel : Function.update s.outputs id m id=m := Function.update_self _ _ _
    have hera:=hcha.erase hmem (by dsimp only; rw [hsel]; exact hidl)
    cases preserveOutput with
    | true =>
      refine ⟨hera,?_⟩
      show s.retainedBytes - (s.outputs id).outputBytes ≤ s.retainedBytes
      omega
    | false =>
      refine ⟨hera.cleanupOutput hid (by dsimp only; rw [hsel]; exact hidl.2.2),?_⟩
      show s.retainedBytes - (s.outputs id).outputBytes ≤ s.retainedBytes
      omega

end

structure Accounted (limits : OutputLimits) (s : ProcessManager) : Prop where
  counted : Counted s
  retained_le : s.retainedBytes≤limits.maxRetainedOutputBytes

theorem Accounted.step {t : ProcessManager} {a : OutputAction} (h : Accounted limits s)
    (hste : outputStep limits s a=some t) : Accounted limits t := by
  obtain ⟨hcou,hle⟩ := h
  cases a with
  | start lifecycle compatibilitySession maxOutputBytes =>
    cases hste
    exact ⟨hcou.start lifecycle compatibilitySession maxOutputBytes,hle⟩
  | append id type chunk written =>
    obtain ⟨_,hste⟩ := ite_none_right_eq_some.1 hste
    cases hste
    have happ:=hcou.append limits id type chunk written
    exact ⟨happ.1,happ.2 hle⟩
  | consume id =>
    obtain ⟨hid,hste⟩ := ite_none_right_eq_some.1 hste
    cases hste
    have hcon:=hcou.consume hid
    exact ⟨hcon.1,Int.le_trans hcon.2 hle⟩
  | complete id stdoutWritten stderrWritten persisted =>
    obtain ⟨hid,hste⟩ := ite_none_right_eq_some.1 hste
    cases hste
    have hcom:=hcou.complete hid limits stdoutWritten stderrWritten persisted
    exact ⟨hcom.1,by rw [hcom.2]; exact hle⟩
  | deleteRecord id preserveOutput =>
    obtain ⟨_,hste⟩ := ite_none_right_eq_some.1 hste
    cases hste
    have hdel:=hcou.deleteRecord id preserveOutput
    exact ⟨hdel.1,Int.le_trans hdel.2 hle⟩
  | outputExpired id =>
    obtain ⟨⟨hid,htim⟩,hste⟩ := ite_none_right_eq_some.1 hste
    cases hste
    exact ⟨hcou.cleanupOutput hid ((hcou.rows id).timer htim),hle⟩

theorem accounted_of_reachable (h : (outputSystem limits).Reachable s) : Accounted limits s := by
  refine h.invariant (P := Accounted limits) ?_ ?_
  · intro s hs
    subst hs
    exact ⟨counted_init,Int.natCast_nonneg _⟩
  · intro s a t hs hste
    exact hs.step hste

/-- What the counters of the manager stand for. -/
structure CountersAreSums (limits : OutputLimits) (s : ProcessManager) : Prop where
  retainedBytes : s.retainedBytes=ledgerSum s.processes fun id => (s.outputs id).outputBytes
  outputBytes : ∀ id ∈ s.processes, (s.outputs id).outputBytes =
    ((((s.outputs id).stdout.chunks++(s.outputs id).stderr.chunks).map (·.data.length)).sum : ℕ)
  aggregateJournalRecords : s.aggregateJournalRecords =
    ledgerSum s.processes fun id => ((s.outputs id).journal.length : ℤ)
  aggregateOutputBytes : s.aggregateOutputBytes =
    ledgerSum ((List.range s.created).filter fun id => !(s.outputs id).cleanedUp)
      fun id => ((s.outputs id).fullOutputBytes : ℤ)
  retained_le : s.retainedBytes≤limits.maxRetainedOutputBytes
  output_le : ∀ id ∈ s.processes, (s.outputs id).outputBytes≤(s.outputs id).maxOutputBytes

/-- The counters are the sums, and the limits hold, after every operation. -/
theorem output_counters_are_sums (limits : OutputLimits) {s : ProcessManager}
    (h : (outputSystem limits).Reachable s) : CountersAreSums limits s := by
  obtain ⟨hcou,hle⟩ := accounted_of_reachable h
  refine ⟨hcou.retained,?_,hcou.records,?_,hle,?_⟩
  · intro id _
    have hbyt:=(hcou.rows id).bytes
    unfold BytesKept streamBytes at hbyt
    rw [hbyt,map_append,sum_append]
    push_cast
    rfl
  · rw [hcou.files,ledgerSum_filter]
    intro id _ hcle
    have hzer:=((hcou.rows id).cleaned (by simpa using hcle)).1
    rw [hzer]
    rfl
  · intro id _
    exact (hcou.rows id).within

/-- A run that trims one process, then both together, and gives up an output file. -/
theorem output_counters_are_sums_run :
    ∃ s, (outputSystem ⟨8,16,16,4,4⟩).Reachable s ∧ s.retainedBytes=8 ∧
      CountersAreSums ⟨8,16,16,4,4⟩ s := by
  have hrun : ((outputSystem ⟨8,16,16,4,4⟩).exec ProcessManager.init
      [.start .session true 6,.start .service false 5,
        .append 0 .stdout [65,66,10,67,68,69,70] true,
        .append 1 .stderr [97,98,99,100,101,102] true,.complete 0 true true true,
        .start .task false 4,.deleteRecord 0 false,
        .append 2 .stdout [48,49,50] true]).map (·.retainedBytes)=some 8 := by decide +kernel
  obtain ⟨s,hexe,hret⟩ := map_eq_some_iff.1 hrun
  have hrea : (outputSystem ⟨8,16,16,4,4⟩).Reachable s :=
    ⟨_,_,rfl,TransitionSystem.run_of_exec hexe⟩
  exact ⟨s,hrea,hret,output_counters_are_sums _ hrea⟩

end Qubicl.Control.Process
