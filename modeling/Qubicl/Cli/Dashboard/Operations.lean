import Qubicl.Cli.Dashboard.Ledger

/-!
# Operations run at most once, and as reviewed

Two invariants of a helper carry it: what its plans and the call in progress know of what was prepared,
and what its table of executions knows of the records on disk.
-/

namespace Qubicl.Cli.Dashboard.Ledger
open Foundation List

def Task.runs (task : Task) : Bool :=
  match task.phase with
  | .running _ => true
  | _ => false

/-- A run is of a plan by the same instance of the helper and for its session, unexpired and unchanged when it was
checked under the lock, for the request that was reviewed, and with the consent that it needs. -/
structure Reviewed (run : RunRecord) (plan : Prepared) : Prop where
  id : plan.id=run.planId
  instance_ : plan.instance_=run.instance_
  session : plan.sessionId=run.sessionId
  current : run.checkedAt<plan.expiresAt
  fingerprint : run.fingerprint=plan.fingerprint
  request : run.request=plan.request
  reauthenticated : sensitive plan.request.operation=true → run.reauthenticated=true
  confirmed : plan.requiresInterruption=true → run.confirmed=true

structure AsReviewed (digest : String → String) (w : World) : Prop where
  distinct : (w.prepared.map Prepared.id).Nodup
  once : (w.runs.map RunRecord.planId).Nodup
  reviewed : ∀ run ∈ w.runs, ∃ plan ∈ w.prepared, Reviewed run plan
  exclusive : ∀ m, w.helper=.up m → (m.tasks.filter Task.runs).length≤1
  locked : ∀ m, w.helper=.up m → ∀ task ∈ m.tasks, task.runs=true → w.lock=.helper
  kept : ∀ m, w.helper=.up m → ∀ answer ∈ w.answers, (w.disk.lookup answer.operationId).isSome=true →
    ∀ call key, call.idempotencyKey=some key → idempotencyKeyPattern key=true →
      keyHash digest call key=answer.keyHash → call.planId=answer.planId →
        execute digest w.now call m=(m,.answered answer.operationId)

def Phase.acceptingNow : Phase → Bool
  | .accepting .. => true
  | _ => false

/- A call with a new key, by the session of the plan, after its expiry. -/
def discards (digest : String → String) (now : ℕ) (call : ExecuteCall) (m : Memory) : Bool :=
  (call.idempotencyKey.filter idempotencyKeyPattern).any fun key =>
    (m.executions.lookup (keyHash digest call key)).isNone &&
      (m.plan? call.planId).any fun plan => plan.sessionId == call.sessionId && plan.expiresAt≤now

/-- The record of an acceptance is written and the write fails all the same, or a plan is discarded while that
record is written. -/
def disturbs (digest : String → String) (w : World) : Action → Bool
  | .task _ (.acceptance .failedAfter) => true
  | .execute call => match w.helper with
    | .up m => discards digest w.now call m &&
        m.tasks.any fun task => task.phase.acceptingNow && task.planId == call.planId
    | _ => false
  | _ => false

def Phase.accepted : Phase → Bool
  | .running _ | .recovering .. | .finishing _ => true
  | _ => false

def Phase.locked : Phase → Bool
  | .trimming _ | .waiting => false
  | _ => true

abbrev Disk := List (String × StoredJob)

/-- No two records are of one key, and one of an answer is that of its call. -/
structure DiskLedger (disk : Disk) (answers : List Answer) (uuids : List String) : Prop where
  unique : ∀ a b s s', disk.lookup a=some s → disk.lookup b=some s' →
    s.acceptance.keyHash=s'.acceptance.keyHash → a=b
  answered : ∀ answer ∈ answers, ∀ s, disk.lookup answer.operationId=some s →
    s.acceptance=⟨answer.keyHash,answer.planId⟩
  issued : ∀ id s, disk.lookup id=some s → id ∈ uuids
  drawn : ∀ answer ∈ answers, answer.operationId ∈ uuids

/-- What a helper that serves knows of them. -/
structure MemoryLedger (disk : Disk) (answers : List Answer) (uuids : List String) (m : Memory) : Prop where
  stored : ∀ id s, disk.lookup id=some s → (m.jobs.lookup id).isSome=true ∧ m.receipts.lookup id=some s.acceptance
  executed : ∀ id, (m.jobs.lookup id).isSome=true →
    ∃ a, m.receipts.lookup id=some a ∧ m.executions.lookup a.keyHash=some ⟨a.planId,id⟩
  known : ∀ key e, m.executions.lookup key=some e →
    m.receipts.lookup e.operationId=some ⟨key,e.planId⟩ ∧ (m.jobs.lookup e.operationId).isSome=true
  answered : ∀ answer ∈ answers, (m.jobs.lookup answer.operationId).isSome=true →
    m.receipts.lookup answer.operationId=some ⟨answer.keyHash,answer.planId⟩
  issued : ∀ id a, m.receipts.lookup id=some a → id ∈ uuids
  drawn : ∀ answer ∈ answers, answer.operationId ∈ uuids
  fresh : ∀ task ∈ m.tasks, task.phase.accepted=false → m.executions.lookup task.keyHash=none
  accepting : ∀ task ∈ m.tasks, ∀ id job f c, task.phase=.accepting id job f c →
    m.jobs.lookup id=none ∧ (∀ answer ∈ answers, answer.operationId≠id) ∧
      m.receipts.lookup id=some ⟨task.keyHash,task.planId⟩

/-- What a helper knows that has still to read `rest`. -/
structure Loading (disk : Disk) (answers : List Answer) (uuids rest : List String) (m : Memory) : Prop where
  records : DiskLedger disk answers uuids
  read : ∀ id s, disk.lookup id=some s → id ∉ rest →
    (m.jobs.lookup id).isSome=true ∧ m.receipts.lookup id=some s.acceptance
  there : ∀ id, (m.jobs.lookup id).isSome=true → ∃ s, disk.lookup id=some s ∧
    m.receipts.lookup id=some s.acceptance ∧
      m.executions.lookup s.acceptance.keyHash=some ⟨s.acceptance.planId,id⟩
  known : ∀ key e, m.executions.lookup key=some e →
    m.receipts.lookup e.operationId=some ⟨key,e.planId⟩ ∧ (m.jobs.lookup e.operationId).isSome=true
  received : ∀ id a, m.receipts.lookup id=some a → (m.jobs.lookup id).isSome=true

variable {fingerprint id jobId key name : String} {job : ManagementJob} {stored : StoredJob}

section Records
variable {disk : Disk} {answers : List Answer} {uuids rest : List String} {m m' : Memory}

section
variable (h : MemoryLedger disk answers uuids m)
include h

theorem MemoryLedger.onDisk : DiskLedger disk answers uuids where
  unique a b s s' ha hb hkey := by
    obtain ⟨hjob,hrec⟩ := h.stored a s ha
    obtain ⟨hjob',hrec'⟩ := h.stored b s' hb
    obtain ⟨acceptance,hacc,hexe⟩ := h.executed a hjob
    obtain ⟨acceptance',hacc',hexe'⟩ := h.executed b hjob'
    rw [hrec] at hacc
    rw [hrec'] at hacc'
    cases hacc
    cases hacc'
    rw [hkey,hexe'] at hexe
    exact congrArg Execution.operationId (Option.some.inj hexe).symm
  answered answer hans s hs := by
    obtain ⟨hjob,hrec⟩ := h.stored _ s hs
    rw [h.answered answer hans hjob] at hrec
    exact (Option.some.inj hrec).symm
  issued id s hs := h.issued id _ (h.stored id s hs).2
  drawn := h.drawn

/- What the records do not depend on: the values of the jobs, the plans and how far the calls are. -/
theorem MemoryLedger.congr
    (hjos : ∀ id, (m'.jobs.lookup id).isSome=(m.jobs.lookup id).isSome) (hexe : m'.executions=m.executions)
    (hres : m'.receipts=m.receipts)
    (htas : ∀ task' ∈ m'.tasks, (task'.phase.acceptingNow=true → task' ∈ m.tasks) ∧
      (task'.phase.accepted=false → ∃ task ∈ m.tasks, task.keyHash=task'.keyHash ∧ task.phase.accepted=false)) :
    MemoryLedger disk answers uuids m' where
  stored id s hs := by
    rw [hjos,hres]
    exact h.stored id s hs
  executed id hid := by
    rw [hjos] at hid
    rw [hres,hexe]
    exact h.executed id hid
  known key e he := by
    rw [hexe] at he
    rw [hres,hjos]
    exact h.known key e he
  answered answer hans hjob := by
    rw [hjos] at hjob
    rw [hres]
    exact h.answered answer hans hjob
  issued id a ha := by
    rw [hres] at ha
    exact h.issued id a ha
  drawn := h.drawn
  fresh task' htak hacc := by
    obtain ⟨task,hmem,hkey,hpha⟩ := (htas task' htak).2 hacc
    rw [hexe,← hkey]
    exact h.fresh task hmem hpha
  accepting task' htak id job f c hpha := by
    have hmem:=(htas task' htak).1 (by rw [hpha]; rfl)
    obtain ⟨hnon,hanw,hrec⟩ := h.accepting task' hmem id job f c hpha
    have hsam:=hjos id
    rw [hnon] at hsam
    refine ⟨by simpa using hsam,hanw,?_⟩
    rw [hres]
    exact hrec

theorem MemoryLedger.persisted (hrec : m.record id=some stored) :
    MemoryLedger (mapSet id stored disk) answers uuids m := by
  refine { h with stored := fun k s hs => ?_ }
  rw [lookup_mapSet] at hs
  split at hs
  next heq =>
    subst heq
    cases hs
    unfold Memory.record at hrec
    split at hrec
    next acceptance job hret hjob =>
      cases hrec
      exact ⟨by rw [hjob]; rfl,hret⟩
    next => cases hrec
  next => exact h.stored k s hs

theorem MemoryLedger.effect (hrec : m.record id=some stored) (effect : Effect) :
    MemoryLedger (effect.write id stored disk) answers uuids m := by
  unfold Effect.write
  split
  next => exact h
  next => exact h.persisted hrec

theorem MemoryLedger.persist (id : String) (effect : Effect) :
    MemoryLedger (persist m id effect disk).1 answers uuids m := by
  unfold Ledger.persist
  split
  next => exact h
  next stored hrec => exact h.effect hrec effect

theorem MemoryLedger.unlinked (victim : String) :
    MemoryLedger (mapDelete victim disk) answers uuids m := by
  refine { h with stored := fun k s hs => ?_ }
  rw [lookup_mapDelete] at hs
  split at hs
  next => cases hs
  next => exact h.stored k s hs

end

theorem lookup_jobs_setStatus (id k : String) (status : JobStatus) :
    ((m.setStatus id status).jobs.lookup k).isSome=(m.jobs.lookup k).isSome := by
  unfold Memory.setStatus
  rw [lookup_mapModify]
  split
  next => rw [Option.isSome_map]
  next => rfl

section
variable (h : MemoryLedger disk answers uuids m)
include h

theorem MemoryLedger.forgotten {victim : String} {s : StoredJob}
    (hs : disk.lookup victim=some s) (hacg : ∀ task ∈ m.tasks, task.phase.acceptingNow=false) :
    MemoryLedger (mapDelete victim disk) answers uuids (m.forget victim) := by
  obtain ⟨hjob,hrec⟩ := h.stored victim s hs
  obtain ⟨acceptance,hace,hexe⟩ := h.executed victim hjob
  rw [hrec] at hace
  cases hace
  -- the table loses the entry of the victim and no other
  have hexs : ∀ key, (m.forget victim).executions.lookup key =
      if key=s.acceptance.keyHash then none else m.executions.lookup key := by
    intro key
    unfold Memory.forget
    rw [hrec]
    exact lookup_mapDelete _ _ _
  have hjos : ∀ id, (m.forget victim).jobs.lookup id=if id=victim then none else m.jobs.lookup id := fun id =>
    lookup_mapDelete _ _ _
  have hres : ∀ id, (m.forget victim).receipts.lookup id=if id=victim then none else m.receipts.lookup id :=
    fun id => lookup_mapDelete _ _ _
  refine ⟨?_,?_,?_,?_,?_,h.drawn,?_,?_⟩
  · intro id s' hs'
    rw [lookup_mapDelete] at hs'
    split at hs'
    next => cases hs'
    next hne =>
      rw [hjos,hres,if_neg hne,if_neg hne]
      exact h.stored id s' hs'
  · intro id hid
    rw [hjos] at hid
    split at hid
    next => cases hid
    next hne =>
      obtain ⟨a,ha,he⟩ := h.executed id hid
      refine ⟨a,by rw [hres,if_neg hne]; exact ha,?_⟩
      have hkey : a.keyHash≠s.acceptance.keyHash := by
        intro heq
        rw [heq,hexe] at he
        exact hne (congrArg Execution.operationId (Option.some.inj he)).symm
      rw [hexs,if_neg hkey]
      exact he
  · intro key e he
    rw [hexs] at he
    split at he
    next => cases he
    next hne =>
      obtain ⟨hkno,hjob'⟩ := h.known key e he
      have hoth : e.operationId≠victim := by
        intro heq
        rw [heq,hrec] at hkno
        exact hne (congrArg Acceptance.keyHash (Option.some.inj hkno)).symm
      rw [hres,hjos,if_neg hoth,if_neg hoth]
      exact ⟨hkno,hjob'⟩
  · intro answer hans hid
    rw [hjos] at hid
    split at hid
    next => cases hid
    next hne =>
      rw [hres,if_neg hne]
      exact h.answered answer hans hid
  · intro id a ha
    rw [hres] at ha
    split at ha
    next => cases ha
    next => exact h.issued id a ha
  · intro task htas hacc
    rw [hexs]
    split
    next => rfl
    next => exact h.fresh task htas hacc
  · intro task htas id job f c hpha
    have hnot:=hacg task htas
    rw [hpha] at hnot
    cases hnot

theorem MemoryLedger.accept {task : Task} {checkedAt : ℕ} (htak : task ∈ m.tasks)
    (hpha : task.phase=.accepting jobId job fingerprint checkedAt) (hjos : m'.jobs=mapSet jobId job m.jobs)
    (hexe : m'.executions=mapSet task.keyHash ⟨task.planId,jobId⟩ m.executions) (hres : m'.receipts=m.receipts)
    (htas : ∀ task' ∈ m'.tasks, task'.phase.accepted=true) :
    MemoryLedger (mapSet jobId ⟨job,task.keyHash,task.planId⟩ disk) (⟨task.keyHash,task.planId,jobId⟩::answers)
      uuids m' := by
  obtain ⟨hnon,hanw,hrec⟩ := h.accepting task htak jobId job fingerprint checkedAt hpha
  have hfre : m.executions.lookup task.keyHash=none := h.fresh task htak (by rw [hpha]; rfl)
  have hlat : ∀ task' ∈ m'.tasks, ¬ task'.phase.accepted=false := by
    intro task' htas' hnot
    rw [htas task' htas'] at hnot
    cases hnot
  refine ⟨?_,?_,?_,?_,?_,?_,?_,?_⟩
  · intro id s hs
    rw [lookup_mapSet] at hs
    rw [hjos,hres,lookup_mapSet]
    split at hs
    next heq =>
      subst heq
      cases hs
      exact ⟨by simp,hrec⟩
    next hne =>
      rw [if_neg hne]
      exact h.stored id s hs
  · intro id hid
    rw [hjos,lookup_mapSet] at hid
    rw [hres,hexe]
    split at hid
    next heq =>
      subst heq
      exact ⟨_,hrec,by rw [lookup_mapSet,if_pos rfl]⟩
    next =>
      obtain ⟨a,ha,he⟩ := h.executed id hid
      refine ⟨a,ha,?_⟩
      have hne : a.keyHash≠task.keyHash := by
        intro heq
        rw [heq,hfre] at he
        cases he
      rw [lookup_mapSet,if_neg hne]
      exact he
  · intro key e he
    rw [hexe,lookup_mapSet] at he
    rw [hres,hjos,lookup_mapSet]
    split at he
    next heq =>
      subst heq
      cases he
      exact ⟨hrec,by simp⟩
    next =>
      obtain ⟨hkno,hjob⟩ := h.known key e he
      refine ⟨hkno,?_⟩
      split
      next => rfl
      next => exact hjob
  · intro answer hans hid
    rw [hres]
    rcases mem_cons.1 hans with rfl | hold
    · exact hrec
    · rw [hjos,lookup_mapSet,if_neg (hanw answer hold)] at hid
      exact h.answered answer hold hid
  · intro id a ha
    rw [hres] at ha
    exact h.issued id a ha
  · intro answer hans
    rcases mem_cons.1 hans with rfl | hold
    · exact h.issued _ _ hrec
    · exact h.drawn answer hold
  · intro task' htas' hnot
    exact absurd hnot (hlat task' htas')
  · intro task' htas' id job' f c hpha'
    refine absurd ?_ (hlat task' htas')
    rw [hpha']
    rfl

theorem MemoryLedger.receive {acceptance : Acceptance} (hnew : jobId ∉ uuids) (hjob : m'.jobs=m.jobs)
    (hexe : m'.executions=m.executions) (hrec : m'.receipts=mapSet jobId acceptance m.receipts)
    (htas : ∀ task' ∈ m'.tasks, task'.phase.accepted=false →
      m.executions.lookup task'.keyHash=none ∧ ∀ id job f c, task'.phase=.accepting id job f c →
        id=jobId ∧ acceptance=⟨task'.keyHash,task'.planId⟩) : MemoryLedger disk answers (jobId::uuids) m' := by
  have hoth : ∀ id a, m.receipts.lookup id=some a → id≠jobId := by
    rintro id a ha rfl
    exact hnew (h.issued id a ha)
  have hkep : ∀ id a, m.receipts.lookup id=some a → m'.receipts.lookup id=some a := by
    intro id a ha
    rw [hrec,lookup_mapSet,if_neg (hoth id a ha)]
    exact ha
  refine ⟨?_,?_,?_,?_,?_,?_,?_,?_⟩
  · intro id s hs
    rw [hjob]
    exact ⟨(h.stored id s hs).1,hkep id _ (h.stored id s hs).2⟩
  · intro id hid
    rw [hjob] at hid
    rw [hexe]
    obtain ⟨a,ha,he⟩ := h.executed id hid
    exact ⟨a,hkep id a ha,he⟩
  · intro key e he
    rw [hexe] at he
    rw [hjob]
    exact ⟨hkep _ _ (h.known key e he).1,(h.known key e he).2⟩
  · intro answer hans hid
    rw [hjob] at hid
    exact hkep _ _ (h.answered answer hans hid)
  · intro id a ha
    rw [hrec,lookup_mapSet] at ha
    split at ha
    next heq => exact heq ▸ mem_cons_self
    next => exact mem_cons_of_mem _ (h.issued id a ha)
  · intro answer hans
    exact mem_cons_of_mem _ (h.drawn answer hans)
  · intro task' htas' hnot
    rw [hexe]
    exact (htas task' htas' hnot).1
  · intro task' htas' id job f c hpha
    obtain ⟨rfl,hacc⟩ := (htas task' htas' (by rw [hpha]; rfl)).2 id job f c hpha
    refine ⟨?_,?_,?_⟩
    · rw [hjob]
      by_contra hsom
      obtain ⟨a,ha,-⟩ := h.executed id (Option.isSome_iff_ne_none.2 hsom)
      exact hoth id a ha rfl
    · rintro answer hans rfl
      exact hnew (h.drawn answer hans)
    · rw [hrec,lookup_mapSet,if_pos rfl,hacc]

theorem MemoryLedger.draw (id : String) :
    MemoryLedger disk answers (id::uuids) m :=
  { h with
    issued := fun k a ha => mem_cons_of_mem _ (h.issued k a ha)
    drawn := fun answer hans => mem_cons_of_mem _ (h.drawn answer hans) }

/- A call is answered again. -/
theorem MemoryLedger.answer {e : Execution} (he : m.executions.lookup key=some e) :
    MemoryLedger disk (⟨key,e.planId,e.operationId⟩::answers) uuids m := by
  obtain ⟨hrec,hjob⟩ := h.known key e he
  refine { h with answered := ?_, drawn := ?_, accepting := ?_ }
  · intro answer hans hid
    rcases mem_cons.1 hans with rfl | hold
    · exact hrec
    · exact h.answered answer hold hid
  · intro answer hans
    rcases mem_cons.1 hans with rfl | hold
    · exact h.issued _ _ hrec
    · exact h.drawn answer hold
  · intro task htas id job f c hpha
    obtain ⟨hnon,hanw,hrec'⟩ := h.accepting task htas id job f c hpha
    refine ⟨hnon,fun answer hans => ?_,hrec'⟩
    rcases mem_cons.1 hans with rfl | hold
    · intro heq
      have hsam : e.operationId=id := heq
      rw [hsam,hnon] at hjob
      cases hjob
    · exact hanw answer hold

theorem MemoryLedger.crashedAccepting {task : Task} {checkedAt : ℕ} (htas : task ∈ m.tasks)
    (hpha : task.phase=.accepting jobId job fingerprint checkedAt) :
    DiskLedger (mapSet jobId ⟨job,task.keyHash,task.planId⟩ disk) answers uuids := by
  have hacc : MemoryLedger (mapSet jobId ⟨job,task.keyHash,task.planId⟩ disk)
      (⟨task.keyHash,task.planId,jobId⟩::answers) uuids { m with
        jobs := mapSet jobId job m.jobs
        executions := mapSet task.keyHash ⟨task.planId,jobId⟩ m.executions
        tasks := [] } :=
    h.accept htas hpha rfl rfl rfl fun _ htas' => absurd htas' not_mem_nil
  have hdis:=hacc.onDisk
  exact { hdis with
    answered := fun answer hans => hdis.answered answer (mem_cons_of_mem _ hans)
    drawn := fun answer hans => hdis.drawn answer (mem_cons_of_mem _ hans) }

end

theorem Loading.begin (h : DiskLedger disk answers uuids) : Loading disk answers uuids (sortedNames disk) .empty where
  records := h
  read id s hs hnot := by
    refine absurd ?_ hnot
    unfold sortedNames
    rw [mem_insertionSort]
    exact mem_map.2 ⟨_,mem_of_lookup hs,rfl⟩
  there id hid := by cases hid
  known key e he := by cases he
  received id a ha := by cases ha

theorem Loading.next (h : Loading disk answers uuids (name::rest) m) (hsto : disk.lookup name=some stored)
    (hjos : m'.jobs=mapSet name job m.jobs)
    (hexs : m'.executions=mapSet stored.acceptance.keyHash ⟨stored.acceptance.planId,name⟩ m.executions)
    (hres : m'.receipts=mapSet name stored.acceptance m.receipts) : Loading disk answers uuids rest m' := by
  refine ⟨h.records,?_,?_,?_,?_⟩
  · intro id s hs hnot
    rw [hjos,hres,lookup_mapSet,lookup_mapSet]
    split
    next heq =>
      rw [heq,hsto] at hs
      cases hs
      exact ⟨rfl,rfl⟩
    next hne =>
      refine h.read id s hs fun hmem => ?_
      rcases mem_cons.1 hmem with heq | hrest
      · exact hne heq
      · exact hnot hrest
  · intro id hid
    rw [hres,hexs]
    by_cases heq : id=name
    · subst heq
      exact ⟨stored,hsto,by rw [lookup_mapSet,if_pos rfl],by rw [lookup_mapSet,if_pos rfl]⟩
    · rw [hjos,lookup_mapSet,if_neg heq] at hid
      obtain ⟨s,hs,hrec,hexe⟩ := h.there id hid
      have hkey : s.acceptance.keyHash≠stored.acceptance.keyHash := fun hsam =>
        heq (h.records.unique id name s stored hs hsto hsam)
      refine ⟨s,hs,?_,?_⟩
      · rw [lookup_mapSet,if_neg heq]
        exact hrec
      · rw [lookup_mapSet,if_neg hkey]
        exact hexe
  · intro key e he
    rw [hexs,lookup_mapSet] at he
    rw [hres,hjos,lookup_mapSet,lookup_mapSet]
    split at he
    next heq =>
      cases he
      rw [heq,if_pos rfl,if_pos rfl]
      exact ⟨rfl,rfl⟩
    next =>
      obtain ⟨hrec,hjob⟩ := h.known key e he
      split
      next heq =>
        -- the same record, which would have been read twice
        obtain ⟨s,hs,hrec',-⟩ := h.there e.operationId hjob
        rw [heq,hsto] at hs
        cases hs
        rw [hrec'] at hrec
        exact ⟨hrec,rfl⟩
      next => exact ⟨hrec,hjob⟩
  · intro id a ha
    rw [hres,lookup_mapSet] at ha
    rw [hjos,lookup_mapSet]
    split
    next => rfl
    next hne =>
      rw [if_neg hne] at ha
      exact h.received id a ha

theorem DiskLedger.rewritten (h : DiskLedger disk answers uuids) (hsto : disk.lookup name=some stored)
    (job : ManagementJob) : DiskLedger (mapSet name ⟨job,stored.acceptance⟩ disk) answers uuids := by
  have hsam : ∀ id s, (mapSet name ⟨job,stored.acceptance⟩ disk).lookup id=some s →
      ∃ s', disk.lookup id=some s' ∧ s'.acceptance=s.acceptance := by
    intro id s hs
    rw [lookup_mapSet] at hs
    split at hs
    next heq =>
      cases hs
      exact ⟨stored,heq ▸ hsto,rfl⟩
    next => exact ⟨s,hs,rfl⟩
  refine ⟨?_,?_,?_,h.drawn⟩
  · intro a b s s' ha hb hkey
    obtain ⟨t,ht,hacc⟩ := hsam a s ha
    obtain ⟨t',ht',hacc'⟩ := hsam b s' hb
    refine h.unique a b t t' ht ht' ?_
    rw [hacc,hacc',hkey]
  · intro answer hans s hs
    obtain ⟨t,ht,hacc⟩ := hsam _ s hs
    rw [← hacc]
    exact h.answered answer hans t ht
  · intro id s hs
    obtain ⟨t,ht,-⟩ := hsam id s hs
    exact h.issued id t ht

theorem Loading.rewritten (h : Loading disk answers uuids rest m) (hsto : disk.lookup name=some stored)
    (job : ManagementJob) : Loading (mapSet name ⟨job,stored.acceptance⟩ disk) answers uuids rest m := by
  have hfou : ∀ id s, disk.lookup id=some s →
      ∃ s', (mapSet name ⟨job,stored.acceptance⟩ disk).lookup id=some s' ∧ s'.acceptance=s.acceptance := by
    intro id s hs
    rw [lookup_mapSet]
    split
    next heq =>
      rw [heq,hsto] at hs
      cases hs
      exact ⟨_,rfl,rfl⟩
    next => exact ⟨s,hs,rfl⟩
  refine ⟨h.records.rewritten hsto job,?_,?_,h.known,h.received⟩
  · intro id s hs hnot
    rw [lookup_mapSet] at hs
    split at hs
    next heq =>
      cases hs
      exact h.read id stored (heq ▸ hsto) hnot
    next => exact h.read id s hs hnot
  · intro id hid
    obtain ⟨s,hs,hrec,hexe⟩ := h.there id hid
    obtain ⟨s',hs',hacc⟩ := hfou id s hs
    rw [← hacc] at hrec hexe
    exact ⟨s',hs',hrec,hexe⟩

theorem Loading.ready (h : Loading disk answers uuids [] m) (htas : m.tasks=[]) :
    MemoryLedger disk answers uuids m where
  stored id s hs := h.read id s hs not_mem_nil
  executed id hid := by
    obtain ⟨s,-,hrec,hexe⟩ := h.there id hid
    exact ⟨s.acceptance,hrec,hexe⟩
  known := h.known
  answered answer hans hid := by
    obtain ⟨s,hs,hrec,-⟩ := h.there _ hid
    rw [hrec,h.records.answered answer hans s hs]
  issued id a ha := by
    obtain ⟨s,hs,-⟩ := h.there id (h.received id a ha)
    exact h.records.issued id s hs
  drawn := h.records.drawn
  fresh task htak := by
    rw [htas] at htak
    cases htak
  accepting task htak := by
    rw [htas] at htak
    cases htak

end Records

/-- A plan that is kept is one that was prepared. -/
structure Made (plan : Prepared) (kept : RetainedPlan) : Prop where
  session : kept.sessionId=plan.sessionId
  fingerprint : kept.fingerprint=plan.fingerprint
  expiresAt : kept.expiresAt=plan.expiresAt
  requiresInterruption : kept.requiresInterruption=plan.requiresInterruption
  operation : kept.request.operation=plan.request.operation

/-- Those that can still be executed are as they were prepared, and did not run. -/
structure PlanTable (prepared : List Prepared) (instances : ℕ) (runs : List RunRecord) (m : Memory) : Prop where
  made : ∀ id kept, m.objects.lookup id=some kept →
    ∃ plan ∈ prepared, plan.id=id ∧ plan.instance_=instances ∧ Made plan kept
  listed : ∀ id ∈ m.plans, ∃ kept, m.objects.lookup id=some kept ∧
    (∀ plan ∈ prepared, plan.id=id → kept.request=plan.request) ∧ id ∉ runs.map RunRecord.planId

/-- What is known of the plan of a call that has not been accepted. -/
structure Pending (now : ℕ) (runs : List RunRecord) (task : Task) (plan : Prepared) (kept : RetainedPlan) : Prop where
  session : plan.sessionId=task.sessionId
  evaluating : kept.evaluating=true
  reauthenticated : sensitive plan.request.operation=true → task.reauthenticated=true
  confirmed : plan.requiresInterruption=true → task.confirmed=true
  unrun : task.planId ∉ runs.map RunRecord.planId
  intact : kept.request=plan.request ∨ plan.expiresAt≤now
  accepting : ∀ id job f c, task.phase=.accepting id job f c →
    f=plan.fingerprint ∧ c<plan.expiresAt ∧ kept.request=plan.request

def PlansPending (now : ℕ) (prepared : List Prepared) (instances : ℕ) (runs : List RunRecord) (m : Memory) : Prop :=
  ∀ task ∈ m.tasks, task.phase.accepted=false → ∃ plan ∈ prepared, ∃ kept, plan.id=task.planId ∧
    plan.instance_=instances ∧ m.objects.lookup task.planId=some kept ∧ Made plan kept ∧ Pending now runs task plan kept

section Plans
variable {prepared : List Prepared} {instances now : ℕ} {runs : List RunRecord} {m m' : Memory}

theorem Made.scrub {plan : Prepared} {kept : RetainedPlan} (h : Made plan kept) : Made plan kept.scrub := ⟨h.session,
  h.fingerprint,h.expiresAt,h.requiresInterruption,h.operation⟩

theorem Made.evaluating {plan : Prepared} {kept : RetainedPlan} (h : Made plan kept) (evaluating : Bool) :
    Made plan { kept with evaluating } := ⟨h.session,h.fingerprint,h.expiresAt,h.requiresInterruption,h.operation⟩

section
variable (h : PlanTable prepared instances runs m)
include h

theorem PlanTable.modify {f : RetainedPlan → RetainedPlan} (hobj : m'.objects=mapModify key f m.objects)
    (hpla : ∀ id ∈ m'.plans, id ∈ m.plans) (hf : ∀ plan kept, Made plan kept → Made plan (f kept))
    (hreq : ∀ kept, key ∈ m'.plans → (f kept).request=kept.request) : PlanTable prepared instances runs m' where
  made id kept hkep := by
    rw [hobj,lookup_mapModify] at hkep
    split at hkep
    next =>
      obtain ⟨old,hold,rfl⟩ := Option.map_eq_some_iff.1 hkep
      obtain ⟨plan,hpln,hid,hins,hmad⟩ := h.made id old hold
      exact ⟨plan,hpln,hid,hins,hf plan old hmad⟩
    next => exact h.made id kept hkep
  listed id hid := by
    obtain ⟨kept,hkep,hres,hunr⟩ := h.listed id (hpla id hid)
    rw [hobj,lookup_mapModify]
    split
    next heq =>
      refine ⟨f kept,by rw [hkep]; rfl,fun plan hpln hsam => ?_,hunr⟩
      rw [hreq kept (heq ▸ hid)]
      exact hres plan hpln hsam
    next => exact ⟨kept,hkep,hres,hunr⟩

theorem PlanTable.discard (id : String) :
    PlanTable prepared instances runs (m.discardPlan id) := by
  unfold Memory.discardPlan
  split
  next =>
    refine h.modify rfl (fun k hk => (mem_filter.1 hk).1) (fun _ _ hmad => hmad.scrub) fun kept hmem => ?_
    simpa using (mem_filter.1 hmem).2
  next => exact h

theorem PlanTable.setEvaluating (id : String) (evaluating : Bool) :
    PlanTable prepared instances runs (m.setEvaluating id evaluating) :=
  h.modify rfl (fun _ hk => hk) (fun _ _ hmad => hmad.evaluating evaluating) fun _ _ => rfl

theorem PlanTable.congr (hobj : m'.objects=m.objects)
    (hpla : m'.plans=m.plans) : PlanTable prepared instances runs m' where
  made id kept hkep := h.made id kept (hobj ▸ hkep)
  listed id hid := by
    rw [hobj]
    exact h.listed id (hpla ▸ hid)

theorem PlanTable.abandon (i : ℕ) (task : Task) :
    PlanTable prepared instances runs (m.abandon i task) := by
  unfold Memory.abandon
  split
  next => exact (h.setEvaluating _ false).congr rfl rfl
  next => exact h.congr rfl rfl

end

theorem PlansPending.discard (h : PlansPending now prepared instances runs m)
    (hok : ∀ task ∈ m.tasks, task.phase.accepted=false → task.planId=id → task.phase.acceptingNow=false ∧
      ∀ kept, m.objects.lookup id=some kept → kept.expiresAt≤now) :
    PlansPending now prepared instances runs (m.discardPlan id) := by
  unfold Memory.discardPlan
  split
  next =>
    intro task htas hacc
    obtain ⟨plan,hpla,kept,hid,hins,hkep,hmad,hpen⟩ := h task htas hacc
    by_cases hsam : task.planId=id
    · obtain ⟨hnot,hexp⟩ := hok task htas hacc hsam
      refine ⟨plan,hpla,kept.scrub,hid,hins,?_,hmad.scrub,?_⟩
      · show (mapModify id RetainedPlan.scrub m.objects).lookup task.planId=_
        rw [lookup_mapModify,if_pos hsam,hkep]
        rfl
      · refine { hpen with evaluating := hpen.evaluating, intact := Or.inr ?_, accepting := ?_ }
        · rw [← hmad.expiresAt]
          exact hexp kept (hsam ▸ hkep)
        · intro k job f c hpha
          rw [hpha] at hnot
          cases hnot
    · refine ⟨plan,hpla,kept,hid,hins,?_,hmad,hpen⟩
      show (mapModify id RetainedPlan.scrub m.objects).lookup task.planId=_
      rw [lookup_mapModify,if_neg hsam]
      exact hkep
  next => exact h

end Plans

end Qubicl.Cli.Dashboard.Ledger
