import Qubicl.Control.Isolation.Manager
import Qubicl.Control.Process.Accounting

/-!
# The journal and its pages (processes.ts:953-1026, 1110-1144, 1739-1800)

What is captured of a compatibility session, and what a client has read that asks for page after page while it grows.
-/

namespace Qubicl.Control.Process
open Qubicl.Foundation List

/-- The records cover the bytes from `start` to `stop`, one behind the other. -/
def Tiles : ℕ → List JournalRecord → ℕ → Prop
  | start, [], stop => start=stop
  | start, record::records, stop => record.offset=start ∧ 0<record.length ∧
      record.length≤MAX_JOURNAL_RECORD_BYTES+3 ∧ Tiles (start+record.length) records stop

variable {limits : OutputLimits} {m m' m'' : ManagedOutput} {agg : Aggregates} {type : StreamType}
  {start stop cursor : ℕ} {data : List UInt8} {records : List JournalRecord}

theorem Tiles.append {last : ℕ} {more : List JournalRecord} (h : Tiles start records stop) (hmor : Tiles stop more last) :
    Tiles start (records++more) last := by
  induction records generalizing start with
  | nil => exact (show start=stop from h) ▸ hmor
  | cons record records ih => exact ⟨h.1,h.2.1,h.2.2.1,ih h.2.2.2⟩

theorem Tiles.length_le (h : Tiles start records stop) : ∀ record ∈ records, record.length≤MAX_JOURNAL_RECORD_BYTES+3 := by
  induction records generalizing start with
  | nil => exact fun _ hmem => nomatch hmem
  | cons record records ih => exact forall_mem_cons.2 ⟨h.2.2.1,ih h.2.2.2⟩

theorem completeUtf8PrefixLength_le (data : List UInt8) : completeUtf8PrefixLength data≤data.length := by
  unfold completeUtf8PrefixLength
  dsimp only
  split_ifs <;> omega

theorem recordEnd_le (data : List UInt8) (cursor : ℕ) :
    recordEnd data cursor≤data.length ∧ recordEnd data cursor≤cursor+MAX_JOURNAL_RECORD_BYTES+3 := by
  have hsafe:=completeUtf8PrefixLength_le ((data.take (min data.length (cursor+MAX_JOURNAL_RECORD_BYTES))).drop cursor)
  rw [length_drop,length_take] at hsafe
  unfold recordEnd
  dsimp only
  split_ifs <;> omega

/-- The loop goes on behind the record it has planned. -/
theorem planJournalRecords_tiles (type : StreamType) {base maximumRecords : ℕ} (hcursor : cursor≤data.length)
    (htil : Tiles base records (start+cursor)) (hroom : records.length ≤ maximumRecords) :
    let planned:=planJournalRecords type start data maximumRecords cursor records
    Tiles base planned.1 (start+planned.2) ∧ planned.2≤data.length ∧ planned.1.length ≤ maximumRecords := by
  fun_induction planJournalRecords type start data maximumRecords cursor records with
  | case1 cursor records h ih =>
    have hlt:=lt_recordEnd h.1
    obtain ⟨hlen,hsiz⟩ := recordEnd_le data cursor
    refine ih hlen (htil.append ⟨rfl,by simp only; omega,by simp only; omega,?_⟩) ?_
    · show start+cursor+(recordEnd data cursor - cursor)=start+recordEnd data cursor
      omega
    · rw [length_append]
      exact h.2
  | case2 => exact ⟨htil,hcursor,hroom⟩

theorem planWrite_spec (limits : OutputLimits) (m : ManagedOutput) (agg : Aggregates) (type : StreamType) (complete : List UInt8)
    (preserveUtf8Boundary : Bool) :
    let planned:=planWrite limits m agg type complete preserveUtf8Boundary
    planned.2.length≤(remainingBytes limits m agg).toNat ∧
      (m.compatibilitySession=true → Tiles m.fullOutputBytes planned.1 (m.fullOutputBytes+planned.2.length)) ∧
      planned.1.length≤limits.maxJournalRecords - m.journal.length := by
  unfold planWrite
  dsimp only
  have hsafe:=completeUtf8PrefixLength_le (complete.take (min complete.length (remainingBytes limits m agg).toNat))
  rw [length_take] at hsafe
  generalize hcan : complete.take _=candidate
  have hfits : candidate.length≤(remainingBytes limits m agg).toNat := by
    rw [← hcan,length_take]
    split <;> omega
  split
  · generalize hroom : Int.toNat _=room
    obtain ⟨htil,hle,hlen⟩ := @planJournalRecords_tiles m.fullOutputBytes 0 candidate [] type _ room
      (Nat.zero_le _) rfl (Nat.zero_le _)
    simp only [length_take,Nat.min_eq_left hle]
    exact ⟨by omega,fun _ => htil,by omega⟩
  · next hplain => exact ⟨hfits,fun h => absurd h hplain,Nat.zero_le _⟩

/-- What the journal of a tracked process is. -/
structure JournalOk (limits : OutputLimits) (m : ManagedOutput) : Prop where
  tiles : m.compatibilitySession=true → ∃ stop, Tiles 0 m.journal stop ∧ (m.cleanedUp=false → stop=m.fullOutputBytes)
  closed : m.cleanedUp=true → m.outputFileClosed=true
  bytes : m.fullOutputBytes≤limits.maxFullOutputBytes
  records : m.journal.length≤limits.maxJournalRecords

structure Follows (limits : OutputLimits) (m m' : ManagedOutput) : Prop where
  keeps : JournalOk limits m → JournalOk limits m'
  grows : m.journal <+: m'.journal
  session : m'.compatibilitySession=m.compatibilitySession

theorem Follows.refl (m : ManagedOutput) : Follows limits m m := ⟨id,prefix_refl _,rfl⟩

theorem Follows.trans (h : Follows limits m m') (h' : Follows limits m' m'') : Follows limits m m'' :=
  ⟨h'.keeps ∘ h.keeps,h.grows.trans h'.grows,h'.session.trans h.session⟩

theorem Retrimmed.follows (h : Retrimmed m m') : Follows limits m m' := by
  obtain ⟨_,_,_,rfl⟩ := h
  exact ⟨fun h => ⟨h.tiles,h.closed,h.bytes,h.records⟩,prefix_refl _,rfl⟩

theorem appendJournalBytes_follows (complete : List UInt8) (preserveUtf8Boundary written : Bool) (hope : m.outputFileClosed=false) :
    Follows limits m (appendJournalBytes limits m agg type complete preserveUtf8Boundary written).1 := by
  unfold appendJournalBytes
  split
  · exact ⟨fun h => ⟨h.tiles,h.closed,h.bytes,h.records⟩,prefix_refl _,rfl⟩
  · next hleft =>
    obtain ⟨hfits,htil,hroom⟩ := planWrite_spec limits m agg type complete preserveUtf8Boundary
    have hfile : remainingBytes limits m agg≤limits.maxFullOutputBytes - m.fullOutputBytes := min_le_left _ _
    generalize planWrite limits m agg type complete preserveUtf8Boundary=planned at *
    have hwri : Follows limits m { m with
        fullOutputBytes := m.fullOutputBytes+planned.2.length, journal := m.journal++planned.1 } := by
      refine ⟨fun h => ⟨fun hcom => ?_,h.closed,by simp only; omega,?_⟩,prefix_append _ _,rfl⟩
      · obtain ⟨stop,hsto,hfull⟩ := h.tiles hcom
        obtain rfl:=hfull (Bool.eq_false_iff.2 fun hcle => by simp [h.closed hcle] at hope)
        exact ⟨_,hsto.append (htil hcom),fun _ => rfl⟩
      · have:=h.records
        rw [length_append]
        omega
    unfold writeJournal
    split
    · dsimp only
      split
      · exact hwri.trans ⟨fun h => ⟨h.tiles,h.closed,h.bytes,h.records⟩,prefix_refl _,rfl⟩
      · exact hwri
    · exact ⟨fun h => ⟨h.tiles,h.closed,h.bytes,h.records⟩,prefix_refl _,rfl⟩

theorem appendJournal_follows (chunk : List UInt8) (final written : Bool) :
    Follows limits m (appendJournal limits m agg type chunk final written).1 := by
  unfold appendJournal
  split
  · exact .refl m
  · next hope =>
    have hope : m.outputFileClosed=false := by simpa using fun h => hope (.inr h)
    split
    · split
      · exact .refl m
      · exact appendJournalBytes_follows chunk false written hope
    · dsimp only
      have hpend : ∀ data, Follows limits m (m.setPending data type) := fun data => by
        cases type <;> exact ⟨fun h => ⟨h.tiles,h.closed,h.bytes,h.records⟩,prefix_refl _,rfl⟩
      generalize (if final=true then _ else _)=completeBytes
      split
      · exact hpend _
      · exact (hpend _).trans (appendJournalBytes_follows _ true written (by cases type <;> exact hope))

variable {s t : ProcessManager} {id k : ℕ}

theorem follows_of_ne (h : k≠id) : Follows limits (s.outputs k) ((s.setOutput id m).outputs k) := by
  show Follows limits (s.outputs k) (Function.update s.outputs id m k)
  rw [Function.update_of_ne h]
  exact .refl _

theorem follows_setOutput (h : Follows limits (s.outputs id) m) (k : ℕ) :
    Follows limits (s.outputs k) ((s.setOutput id m).outputs k) := by
  by_cases hk : k=id
  · subst hk
    show Follows limits (s.outputs k) (Function.update s.outputs k m k)
    rwa [Function.update_self]
  · exact follows_of_ne hk

theorem trimProcess_retrimmed (m : ManagedOutput) (retainedBytes : ℤ) : Retrimmed m (trimProcess m retainedBytes).1 := by
  fun_induction trimProcess with
  | case1 m => exact .refl m
  | case2 m => exact .refl m
  | case3 m _ _ type _ dropped ih => exact (drop_retrimmed m type _).trans ih

theorem trimGlobal_follows (s : ProcessManager) (k : ℕ) : Follows limits (s.outputs k) ((trimGlobal limits s).outputs k) := by
  fun_induction trimGlobal with
  | case1 s => exact .refl _
  | case2 s => exact .refl _
  | case3 s _ place _ ih => exact (follows_setOutput (drop_retrimmed _ _ _).follows k).trans ih

theorem append_follows (chunk : List UInt8) (written : Bool) (k : ℕ) :
    Follows limits (s.outputs k) ((append limits s id type chunk written).outputs k) := by
  unfold append
  split
  · exact .refl _
  · refine (follows_setOutput (@appendJournal_follows limits (s.outputs id) s.aggregates type chunk false written) k).trans
      (.trans ?_ (trimGlobal_follows _ k))
    refine follows_setOutput (s:=s.setJournaled id _) (.trans ?_ (trimProcess_retrimmed _ _).follows) k
    cases type <;> exact Retrimmed.follows ⟨_,_,_,rfl⟩

theorem complete_follows (stdoutWritten stderrWritten persisted : Bool) (k : ℕ) :
    Follows limits (s.outputs k) ((complete limits s id stdoutWritten stderrWritten persisted).outputs k) := by
  have hjou : ∀ (s : ProcessManager) type written, Follows limits (s.outputs k) ((s.setJournaled id
      (appendJournal limits (s.outputs id) s.aggregates type [] true written)).outputs k) := fun s _ written =>
    follows_setOutput (appendJournal_follows [] true written) k
  unfold complete
  split
  · exact .refl _
  · dsimp only
    refine ((hjou s .stdout stdoutWritten).trans (hjou _ .stderr stderrWritten)).trans ?_
    split <;> refine follows_setOutput ?_ k <;> exact ⟨fun h => ⟨h.tiles,fun _ => rfl,h.bytes,h.records⟩,prefix_refl _,rfl⟩

theorem trimGlobal_processes (s : ProcessManager) : (trimGlobal limits s).processes=s.processes := by
  fun_induction trimGlobal with
  | case1 s => rfl
  | case2 s => rfl
  | case3 s _ place _ ih => exact ih

/-- What an action does to the row of a process that is tracked after it. -/
theorem step_follows {a : OutputAction} (hcou : Counted s) (hste : outputStep limits s a=some t) (ht : k ∈ t.processes) :
    k ∈ s.processes ∧ Follows limits (s.outputs k) (t.outputs k) ∨ k ∉ s.processes ∧ JournalOk limits (t.outputs k) := by
  cases a <;> simp only [outputStep,Option.ite_none_right_eq_some,Option.some.injEq] at hste
  case start =>
    subst hste
    by_cases hs : k ∈ s.processes
    · exact .inl ⟨hs,follows_of_ne (Nat.ne_of_lt (hcou.tracked k hs))⟩
    · obtain rfl:=mem_singleton.1 ((mem_append.1 ht).resolve_left hs)
      refine .inr ⟨hs,?_⟩
      show JournalOk limits (Function.update s.outputs s.created _ s.created)
      rw [Function.update_self]
      exact ⟨fun _ => ⟨0,rfl,fun _ => rfl⟩,Bool.noConfusion,Nat.zero_le _,Nat.zero_le _⟩
  case append id type chunk written =>
    obtain ⟨-,rfl⟩ := hste
    refine .inl ⟨?_,append_follows chunk written k⟩
    unfold append at ht
    split at ht
    · exact ht
    · rwa [trimGlobal_processes] at ht
  case consume id =>
    obtain ⟨-,rfl⟩ := hste
    exact .inl ⟨ht,follows_setOutput (Retrimmed.follows ⟨_,_,_,rfl⟩) k⟩
  case complete id stdoutWritten stderrWritten persisted =>
    obtain ⟨-,rfl⟩ := hste
    refine .inl ⟨?_,complete_follows stdoutWritten stderrWritten persisted k⟩
    unfold complete at ht
    dsimp only at ht
    split_ifs at ht <;> exact ht
  case deleteRecord id preserveOutput =>
    obtain ⟨-,rfl⟩ := hste
    unfold deleteRecord at ht ⊢
    split at ht <;> rename_i hmem
    · rw [if_pos hmem]
      exact .inl ⟨ht,.refl _⟩
    · have ht : k ∈ s.processes.erase id := by cases preserveOutput <;> exact ht
      obtain ⟨hne,hs⟩ := hcou.nodup.mem_erase_iff.1 ht
      rw [if_neg hmem]
      cases preserveOutput with
      | true => exact .inl ⟨hs,follows_of_ne hne⟩
      | false => exact .inl ⟨hs,(follows_of_ne hne).trans (follows_of_ne (s:=s.setOutput id _) hne)⟩
  case outputExpired id =>
    obtain ⟨⟨-,htim⟩,rfl⟩ := hste
    have hgiven : Follows limits (s.outputs id) { s.outputs id with fullOutputBytes := 0, cleanedUp := true } := by
      refine ⟨fun h => ⟨fun hcom => ?_,fun _ => (hcou.rows id).timer htim,Nat.zero_le _,h.records⟩,prefix_refl _,rfl⟩
      obtain ⟨stop,hsto,-⟩ := h.tiles hcom
      exact ⟨stop,hsto,Bool.noConfusion⟩
    exact .inl ⟨ht,follows_setOutput hgiven k⟩

theorem journalOk_of_reachable (h : (outputSystem limits).Reachable s) :
    Accounted limits s ∧ ∀ k ∈ s.processes, JournalOk limits (s.outputs k) := by
  apply h.invariant
  · rintro _ rfl
    exact ⟨accounted_of_reachable (.initial rfl),nofun⟩
  · rintro s a t ⟨hacc,hrows⟩ hste
    refine ⟨hacc.step hste,fun k ht => ?_⟩
    rcases step_follows hacc.counted hste ht with ⟨hs,hfol⟩ | ⟨-,hnew⟩
    · exact hfol.keeps (hrows k hs)
    · exact hnew

/-- The journal of a compatibility session covers its output file, within the limits. -/
theorem journal_covers_output (h : (outputSystem limits).Reachable s) (hid : id ∈ s.processes)
    (hcom : (s.outputs id).compatibilitySession=true) :
    ((s.outputs id).cleanedUp=false → Tiles 0 (s.outputs id).journal (s.outputs id).fullOutputBytes) ∧
      (s.outputs id).fullOutputBytes≤limits.maxFullOutputBytes ∧ (s.outputs id).journal.length≤limits.maxJournalRecords := by
  have hrow:=(journalOk_of_reachable h).2 id hid
  obtain ⟨stop,hsto,hfull⟩ := hrow.tiles hcom
  exact ⟨fun hcle => hfull hcle ▸ hsto,hrow.bytes,hrow.records⟩

/-- Two streams, a byte that waits for the rest of its character until the end, and a limit that is met. -/
theorem journal_covers_output_run : ∃ s, (outputSystem ⟨9,5,9,9,9⟩).Reachable s ∧ (s.outputs 0).journal.length=3 ∧
    ((s.outputs 0).cleanedUp=false → Tiles 0 (s.outputs 0).journal (s.outputs 0).fullOutputBytes) := by
  have hrun : ((outputSystem ⟨9,5,9,9,9⟩).exec ProcessManager.init [.start .session true 9,.append 0 .stdout [65,10,195] true,
      .append 0 .stderr [66,67] true,.complete 0 true true true]).map (fun s => decide (0 ∈ s.processes ∧
        (s.outputs 0).compatibilitySession=true ∧ (s.outputs 0).journal.length=3))=some true := by decide +kernel
  obtain ⟨s,hexec,hs⟩ := Option.map_eq_some_iff.1 hrun
  obtain ⟨hid,hcom,hlen⟩ := of_decide_eq_true hs
  have hrea : (outputSystem ⟨9,5,9,9,9⟩).Reachable s := ⟨_,_,rfl,TransitionSystem.run_of_exec hexec⟩
  exact ⟨s,hrea,hlen,(journal_covers_output hrea hid hcom).1⟩

/-! ### Page after page -/

open Isolation (ManagedRecord)
variable {read : JournalRecord → Option String} {text : JournalRecord → String} {next : ℕ} {output : List (StreamType × String)}

theorem pageRecords_spec (hrd : ∀ r data, read r=some data → data=text r) {count bytes : ℕ}
    (h : ManagedRecord.pageRecords read records count bytes=some output) :
    output=(records.take output.length).map fun r => (r.type,text r) := by
  induction records generalizing count bytes output with
  | nil => cases h; rfl
  | cons r records ih =>
    rw [ManagedRecord.pageRecords] at h
    split at h
    · cases h; rfl
    · obtain ⟨data,hdat,h⟩ := Option.bind_eq_some_iff.1 h
      obtain ⟨rest,hrest,h⟩ := Option.bind_eq_some_iff.1 h
      cases h
      rw [length_cons,take_succ_cons,map_cons,← ih hrest,hrd r data hdat]

/-- A client that follows `next_offset` while the session goes on; `text` is what the file holds of a record. -/
inductive Reading (limits : OutputLimits) (id : ℕ) (text : JournalRecord → String) :
    ProcessManager → ℕ → List (StreamType × String) → Prop
  | start {s : _} : (outputSystem limits).Reachable s → id ∈ s.processes → (s.outputs id).compatibilitySession=true →
      Reading limits id text s 0 []
  | step {s t a next output : _} : Reading limits id text s next output → outputStep limits s a=some t → id ∈ t.processes →
      Reading limits id text t next output
  | page {s next output : _} (record : ManagedRecord) (read page) : Reading limits id text s next output →
      record.journal=(s.outputs id).journal → (∀ r data, read r=some data → data=text r) →
      record.compatibilityPage (some read) next none=some page → Reading limits id text s page.next_offset (output++page.output)

/-- What has been read is the beginning of the journal, and a page that can be read leads on. -/
theorem pages_read_journal_once (h : Reading limits id text s next output) :
    output=((s.outputs id).journal.take next).map (fun r => (r.type,text r)) ∧ next≤(s.outputs id).journal.length ∧
      ∀ record read page, record.journal=(s.outputs id).journal → next<record.journal.length →
        ManagedRecord.compatibilityPage (some read) next none record=some page → next<page.next_offset := by
  have hall : (outputSystem limits).Reachable s ∧ id ∈ s.processes ∧ (s.outputs id).compatibilitySession=true ∧
      next≤(s.outputs id).journal.length ∧ output=((s.outputs id).journal.take next).map fun r => (r.type,text r) := by
    induction h with
    | start hrea hid hcom => exact ⟨hrea,hid,hcom,Nat.zero_le _,rfl⟩
    | step _ hste ht ih =>
      obtain ⟨hrea,hid,hcom,hle,hout⟩ := ih
      rcases step_follows (accounted_of_reachable hrea).counted hste ht with ⟨-,hfol⟩ | ⟨hnew,-⟩
      · obtain ⟨more,hmor⟩ := hfol.grows
        refine ⟨hrea.step hste,ht,hfol.session.trans hcom,?_,?_⟩
        · rw [← hmor,length_append]
          omega
        · rw [hout,← hmor,take_append_of_le_length hle]
      · exact absurd hid hnew
    | page record read page _ hjou hrd hpage ih =>
      obtain ⟨hrea,hid,hcom,hle,hout⟩ := ih
      obtain ⟨data,hdat,hpage⟩ := Option.bind_eq_some_iff.1 hpage
      cases hpage
      have hspe:=pageRecords_spec hrd hdat
      simp only [ManagedRecord.pageStart,hjou,Nat.min_eq_left hle] at hspe ⊢
      have hlen:=congrArg length hspe
      rw [length_map,length_take,length_drop] at hlen
      refine ⟨hrea,hid,hcom,by omega,?_⟩
      rw [hout,take_add,map_append,← hspe]
  obtain ⟨hrea,hid,hcom,hle,hout⟩ := hall
  refine ⟨hout,hle,fun record read page hjou hlt hpage => ?_⟩
  obtain ⟨data,hdat,hpage⟩ := Option.bind_eq_some_iff.1 hpage
  cases hpage
  obtain ⟨stop,hsto,-⟩ := ((journalOk_of_reachable hrea).2 id hid).tiles hcom
  simp only [Option.bind_some,ManagedRecord.pageStart,Nat.min_eq_left (Nat.le_of_lt hlt)] at hdat ⊢
  rw [drop_eq_getElem_cons hlt,ManagedRecord.pageRecords] at hdat
  have hsiz:=(hjou ▸ hsto : Tiles 0 record.journal stop).length_le _ (getElem_mem hlt)
  rw [if_neg (by unfold Isolation.MAX_PAGE_RECORDS Isolation.MAX_PAGE_BYTES; unfold MAX_JOURNAL_RECORD_BYTES at hsiz; omega)]
    at hdat
  obtain ⟨_,_,hdat⟩ := Option.bind_eq_some_iff.1 hdat
  obtain ⟨_,_,hdat⟩ := Option.bind_eq_some_iff.1 hdat
  cases hdat
  rw [length_cons]
  omega

theorem pages_read_journal_once_run : ∃ s next output, Reading ⟨9,9,9,9,9⟩ 0 (fun _ => "A") s next output ∧
    next=1 ∧ output=((s.outputs 0).journal.take 1).map fun r => (r.type,"A") := by
  have hrun : ((outputSystem ⟨9,9,9,9,9⟩).exec ProcessManager.init [.start .session true 9,.append 0 .stdout [65] true]).map
      (fun s => decide (0 ∈ s.processes ∧ (s.outputs 0).compatibilitySession=true ∧
        (s.outputs 0).journal=[⟨.stdout,0,1⟩]))=some true := by decide +kernel
  obtain ⟨s,hexec,hs⟩ := Option.map_eq_some_iff.1 hrun
  obtain ⟨hid,hcom,hjou⟩ := of_decide_eq_true hs
  let request : Isolation.StartRequest := ⟨"a","a","a","/",none,true,.session,⟨"b",1,"e"⟩,none,"/o",⟨0,"",none,true⟩⟩
  have hrd : Reading ⟨9,9,9,9,9⟩ 0 (fun _ => "A") s 1 [(.stdout,"A")] :=
    .page { request.record with journal := [⟨.stdout,0,1⟩] } (fun _ => some "A") _
      (.start ⟨_,_,rfl,TransitionSystem.run_of_exec hexec⟩ hid hcom) hjou.symm (fun _ _ h => (Option.some.inj h).symm) rfl
  exact ⟨s,1,_,hrd,rfl,(pages_read_journal_once hrd).1⟩

end Qubicl.Control.Process
