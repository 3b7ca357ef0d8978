import Qubicl.Cli.Transaction.Convergence

/-!
# Recovery from any interruption

An attempt that is cut leaves a disk from which the transaction still ends where it
would have ended, and so the attempt that is not cut ends there.
-/

namespace Qubicl.Cli
open Foundation Core Durable List Option

variable {F R : Type} [EmptyCollection F]

/-- The transaction is in place on the disk, and the homes are kept. -/
structure Installed (uid : ℕ) (transaction : StateTransaction) (before after : Disk F) : Prop where
  config : after.files.config=.real uid 0o600 (.current transaction.config)
  secrets : after.files.secrets=.real uid 0o600 transaction.secrets
  active : ∀ entry ∈ transaction.active, ∃ c, (after.slots entry.metadata.id).active=.real uid 0o700 c ∧
    c.metadata=.real uid 0o600 (.current { entry.metadata with deletedAt := none })
  trash : ∀ entry ∈ transaction.trash, ∃ c, (after.slots entry.metadata.id).trash=.real uid 0o700 c ∧
    c.metadata=.real uid 0o600 (.current entry.metadata)
  homes : DiskKept uid before after

variable {metadata : ComputerMetadata} {entry : ActiveTransactionEntry ComputerConfig} {w : World F R}

section Ends
variable {uid : ℕ} {s t : Slot F}

theorem savedDirectory_metadata {p q : Place (ComputerDirectory F)} (h : savedDirectory uid metadata p=some q) :
    ∃ c, q=.real uid 0o700 c ∧ c.metadata=.real uid 0o600 (.current metadata) := by
  obtain ⟨c,t,-,hcon,rfl⟩ := savedDirectory_eq_some.1 h
  obtain ⟨home,-,-,rfl⟩ := savedContent_eq_some.1 hcon
  exact ⟨_,rfl,rfl⟩

theorem savedActive_metadata (h : savedActive uid metadata s=some t) :
    ∃ c, t.active=.real uid 0o700 c ∧ c.metadata=.real uid 0o600 (.current metadata) := by
  obtain ⟨place,hpla,rfl⟩ := savedActive_eq_some.1 h
  exact savedDirectory_metadata hpla

omit [EmptyCollection F] in
theorem markerRemoved_metadata {c : ComputerDirectory F} (hs : s.active=.real uid 0o700 c)
    (h : markerRemoved s=some t) :
    ∃ c', t.active=.real uid 0o700 c' ∧ c'.metadata=c.metadata := by
  obtain ⟨place,hpla,rfl⟩ := map_eq_some_iff.1 h
  rw [hs] at hpla
  simp only [insideTarget,map_eq_some_iff] at hpla
  obtain ⟨content,⟨marker,-,rfl⟩,rfl⟩ := hpla
  exact ⟨_,rfl,rfl⟩

theorem activeTarget_metadata {source : ActiveTransactionSource} {metadata : ComputerConfig}
    (h : activeTarget uid source metadata s=some t) :
    ∃ c, t.active=.real uid 0o700 c ∧
      c.metadata=.real uid 0o600 (.current { metadata with deletedAt := none }) := by
  have hsta : ∀ u : Slot F, (savedActive uid { metadata with deletedAt := none } u).bind markerRemoved =
      some t → ∃ c, t.active=.real uid 0o700 c ∧
        c.metadata=.real uid 0o600 (.current { metadata with deletedAt := none }) := by
    intro u hu
    obtain ⟨v,hv,hmar⟩ := bind_eq_some_iff.1 hu
    obtain ⟨c,hc,hmet⟩ := savedActive_metadata hv
    obtain ⟨c',hc',hsam⟩ := markerRemoved_metadata hc hmar
    exact ⟨c',hc',hsam.trans hmet⟩
  unfold activeTarget at h
  simp only at h
  split at h
  · exact hsta _ h
  · exact savedActive_metadata h
  · exact savedActive_metadata h
  · split at h
    · exact hsta _ h
    · simp at h
  · exact savedActive_metadata h
  · simp at h

theorem trashTarget_metadata (h : trashTarget uid metadata s=some t) :
    ∃ c, t.trash=.real uid 0o700 c ∧ c.metadata=.real uid 0o600 (.current metadata) := by
  unfold trashTarget at h
  split at h
  · obtain ⟨u,hu,rfl⟩ := map_eq_some_iff.1 h
    exact savedActive_metadata hu
  · obtain ⟨place,hpla,rfl⟩ := map_eq_some_iff.1 h
    exact savedDirectory_metadata hpla
  · simp at h

omit [EmptyCollection F] in
theorem filesTarget_eq_some {z : Formats} {state : LoadedState} {files t : StateFiles}
    (h : filesTarget z uid state files=some t) :
    t.config=.real uid 0o600 (.current state.config) ∧ t.secrets=.real uid 0o600 state.secrets := by
  unfold filesTarget at h
  split at h
  · simp only [writtenFiles,bind_eq_some_iff,map_eq_some_iff] at h
    obtain ⟨config,hcon,secrets,hsec,rfl⟩ := h
    exact ⟨written_eq_some hcon,written_eq_some hsec⟩
  · simp at h

theorem realizedDisk_installed {z : Formats} {paths : StatePaths} {transaction : StateTransaction}
    {d e : Disk F} (hval : ValidTransaction z transaction)
    (h : realizedDisk z uid ⟨paths,transaction.config,transaction.secrets⟩ transaction d=some e) :
    Installed uid transaction d { e with journal := .absent } := by
  obtain ⟨hact,htra,hdis⟩ := hval.ids
  simp only [realizedDisk,bind_eq_some_iff] at h
  obtain ⟨d₁,hroo,d₂,hens,d₃,hfil,d₄,heq,htrd⟩ := h
  have h₁ : d₁=d := by
    unfold rootsTarget at hroo
    split at hroo
    · exact (Option.some.inj hroo).symm
    · simp at hroo
  have h₄ : d₄=d₃ := (Option.some.inj heq).symm
  subst h₁ h₄
  obtain ⟨files,hwri,hd₃⟩ := map_eq_some_iff.1 hfil
  obtain ⟨-,hent,hoth⟩ := (activeEntriesTarget_eq_some hact).1 hens
  obtain ⟨he,htrashEntry,htrashOther⟩ := (trashEntriesTarget_eq_some htra).1 htrd
  have hslo : d₄.slots=d₂.slots := by rw [← hd₃]
  obtain ⟨hcon,hsec⟩ := filesTarget_eq_some hwri
  have hfilesEq : e.files=files := by rw [he,← hd₃]
  have hactiveSlot : ∀ entry ∈ transaction.active,
      e.slots entry.metadata.id=d₂.slots entry.metadata.id := by
    intro entry hent
    rw [← hslo]
    apply htrashOther
    intro hmem
    obtain ⟨trashed,htrd,hid⟩ := mem_map.1 hmem
    exact hdis entry hent trashed htrd hid.symm
  constructor
  · show e.files.config=_
    rw [hfilesEq,hcon]
  · show e.files.secrets=_
    rw [hfilesEq,hsec]
  · intro entry hmem
    show ∃ c, (e.slots entry.metadata.id).active=_ ∧ _
    rw [hactiveSlot entry hmem]
    exact activeTarget_metadata (hent entry hmem)
  · exact fun entry hmem => trashTarget_metadata (htrashEntry entry hmem)
  · intro id
    show TreesKept uid (d₁.slots id) (e.slots id)
    have hsta : TreesKept uid (d₁.slots id) (d₂.slots id) := by
      by_cases hid : id ∈ transaction.active.map fun entry => entry.metadata.id
      · obtain ⟨entry,hmem,rfl⟩ := mem_map.1 hid
        exact (ensureActiveDirectory_headsFor paths entry.source entry.metadata).keeps_end
          (ensureActiveDirectory_keeps paths _ _) (hent entry hmem) (.refl _)
      · rw [hoth id hid]
        exact .refl _
    by_cases hid : id ∈ transaction.trash.map fun entry => entry.metadata.id
    · obtain ⟨entry,hmem,rfl⟩ := mem_map.1 hid
      have htar:=htrashEntry entry hmem
      rw [hslo] at htar
      exact (ensureTrashDirectory_headsFor paths entry.metadata).keeps_end
        (ensureTrashDirectory_keeps paths _) htar hsta
    · rw [htrashOther id hid,hslo]
      exact hsta

/- A staged entry that has an end is not rolled back. -/
theorem activeTarget_complete {paths : StatePaths} {metadata : ComputerConfig} {id : String}
    (h : activeTarget uid .staged metadata s=some t) : stagingIncomplete paths id s=.ok false := by
  have hrea : s.active=.absent → stagingReady s.staged=true →
      stagingIncomplete paths id s=.ok false := by
    intro hact hrea
    cases hs : s.staged with
    | real owner mode c =>
      cases hc : c.restoreReady <;>
        simp_all [stagingReady,stagingIncomplete,restoreReadyExists,realDirectoryExists,
          realFileExists,existsAs,Place.isReal,bind,Except.bind]
    | absent => simp [hs,stagingReady] at hrea
    | link => simp [hs,stagingReady] at hrea
    | foreign => simp [hs,stagingReady] at hrea
  unfold activeTarget at h
  cases hact : s.active with
  | absent =>
    cases htra : s.trash <;> simp [hact,htra,Place.found] at h
    exact hrea hact h.1
  | real => simp [stagingIncomplete,realDirectoryExists,existsAs,hact,bind,Except.bind]
  | link => simp [hact,Place.found] at h
  | foreign => simp [hact,Place.found] at h

end Ends

section Rollback
variable {z : Formats} {host : Host F R} {paths : StatePaths} {transaction : StateTransaction}
  {entries : List (ActiveTransactionEntry ComputerConfig)} {goal d : Disk F}

omit [EmptyCollection F] in
theorem rollbackIncompleteStaging_complete
    (h : ∀ entry ∈ entries, entry.source=.staged →
      stagingIncomplete paths entry.metadata.id (d.slots entry.metadata.id)=.ok false) :
    wp (rollbackIncompleteStaging host paths entries)
      ⟨fun _ => False,fun done t => done=false ∧ t=d,fun _ _ => False⟩ d := by
  induction entries with
  | nil => exact (wp_pure false _ d).2 ⟨rfl,rfl⟩
  | cons entry rest ih =>
    have hres:=ih fun other hoth => h other (mem_cons_of_mem _ hoth)
    apply (wp_ite _ _ _ d).2
    refine ⟨fun _ => hres,fun hsou => ?_⟩
    rw [wp_bind,wp_reads,h entry mem_cons_self (not_not.1 hsou)]
    exact hres

omit [EmptyCollection F] in
theorem rollbackIncompleteStaging_found :
    wp (rollbackIncompleteStaging host paths entries) ⟨fun _ => True,
      fun done _ => if done then ∃ entry ∈ entries, entry.source=.staged ∧ d.restoreStaging=true ∧
          stagingIncomplete paths entry.metadata.id (d.slots entry.metadata.id)=.ok true
        else True,fun _ _ => True⟩ d := by
  induction entries with
  | nil => exact (wp_pure false _ d).2 (by simp)
  | cons entry rest ih =>
    have hres : wp (rollbackIncompleteStaging host paths rest) ⟨fun _ => True,
        fun done _ => if done then ∃ other ∈ entry::rest, other.source=.staged ∧
            d.restoreStaging=true ∧
            stagingIncomplete paths other.metadata.id (d.slots other.metadata.id)=.ok true
          else True,fun _ _ => True⟩ d := by
      apply ih.mono (fun _ h => h) ?_ (fun _ _ h => h)
      intro done _ h
      cases done with
      | false => trivial
      | true =>
        obtain ⟨other,hoth,hfou⟩ := h
        exact ⟨other,mem_cons_of_mem _ hoth,hfou⟩
    apply (wp_ite _ _ _ d).2
    refine ⟨fun _ => hres,fun hsou => ?_⟩
    rw [wp_bind,wp_reads]
    cases hinc : stagingIncomplete paths entry.metadata.id (d.slots entry.metadata.id) with
    | error e => trivial
    | ok incomplete =>
      cases incomplete with
      | false => exact hres
      | true =>
        have hkee : Keeps (fun t : Disk F => t.restoreStaging=d.restoreStaging)
            (zoom (Disk.stagedLens entry.metadata.id) (writes (removal host.remnants))) :=
          (keeps_zoom_of_frame fun _ _ h => h : Keeps _ (zoom _ _ : Durable (Disk F) String Unit))
        apply (wp_bind _ _ _ d).2
        apply (wp_bind _ _ _ d).2
        apply (hkee d rfl).mono (fun _ _ => trivial) ?_ (fun _ _ _ => trivial)
        intro _ t ht
        apply (wp_reads _ _ t).2
        cases hsta : t.restoreStaging with
        | false => trivial
        | true =>
          apply (wp_bind _ _ _ t).2
          apply wp_of_forall (fun _ => trivial) ?_ (fun _ _ => trivial)
          intro _ u
          exact (wp_pure true _ u).2
            ⟨entry,mem_cons_self,not_not.1 hsou,ht.symm.trans hsta,hinc⟩

omit [EmptyCollection F] in
/- What `rm` leaves is no more complete than what it found. -/
theorem stagingIncomplete_removal {id : String}
    (h : stagingIncomplete paths id (d.slots id)=.ok true) :
    ∀ place ∈ removal host.remnants (d.slots id).staged,
      stagingIncomplete paths id (((Disk.stagedLens id).set place d).slots id)=.ok true := by
  obtain ⟨hact,hrea⟩ := stagingIncomplete_eq h
  have hslo : ∀ place, ((Disk.stagedLens id).set place d).slots id =
      { d.slots id with staged := place } := by
    intro place
    simp [Disk.stagedLens,Lens.comp,Lens.at,Disk.slotsLens,Slot.stagedLens]
  have hinc : ∀ place, restoreReadyExists paths id { d.slots id with staged := place } = .ok false →
      stagingIncomplete paths id { d.slots id with staged := place } = .ok true := by
    intro place hpla
    have hsam : ({ d.slots id with staged := place } : Slot F) =
        ⟨.absent,(d.slots id).trash,place⟩ := by rw [← hact]
    rw [hsam] at hpla ⊢
    simp [stagingIncomplete,realDirectoryExists,existsAs,hpla,bind,Except.bind]
  intro place hpla
  rw [hslo]
  apply hinc
  cases hsta : (d.slots id).staged with
  | absent => simp [hsta,removal] at hpla
  | link =>
    have : place=.absent := by simpa [hsta,removal] using hpla
    rw [this]
    rfl
  | foreign =>
    have : place=.absent := by simpa [hsta,removal] using hpla
    rw [this]
    rfl
  | real owner mode c =>
    have hmar : c.restoreReady=.absent := by
      simp only [restoreReadyExists,hsta,realFileExists,existsAs] at hrea
      cases hc : c.restoreReady <;> simp_all
    rw [hsta] at hpla
    rcases mem_append.1 hpla with hrem | habsent
    · obtain ⟨r,hr,rfl⟩ := mem_map.1 hrem
      simp [restoreReadyExists,host.remnants_ready c hmar r hr,realFileExists,existsAs]
    · rw [mem_singleton.1 habsent]
      rfl

omit [EmptyCollection F] in
theorem removal_last {remnants : ComputerDirectory F → List (ComputerDirectory F)}
    (place : Place (ComputerDirectory F)) : (removal remnants place).getLastD place=.absent := by
  cases place <;> simp [removal,getLastD_eq_getLast?]

theorem ValidTransaction.staged_unique (h : ValidTransaction z transaction)
    {other : ActiveTransactionEntry ComputerConfig} (hent : entry ∈ transaction.active) (hsou : entry.source=.staged)
    (hoth : other ∈ transaction.active) (hsou' : other.source=.staged) : other=entry := by
  have hsha:=(stateTransactionSchema_normal.1 h).shape
  have hmem : .staged ∈ transaction.active.map (·.source) :=
    mem_map.2 ⟨entry,hent,hsou⟩
  have hcou : (transaction.active.map (·.source)).count .staged=1 := (hsha.staged hmem).2
  have hlen : (transaction.active.filter fun e => e.source=.staged).length=1 := by
    rw [← hcou,List.count,countP_map,countP_eq_length_filter]
    congr 1
  obtain ⟨one,hone⟩ := length_eq_one_iff.1 hlen
  have hin : ∀ e ∈ transaction.active, e.source=.staged → e=one := by
    intro e he hsta
    have : e ∈ transaction.active.filter fun e => e.source=.staged :=
      mem_filter.2 ⟨he,by simpa using hsta⟩
    rw [hone] at this
    exact mem_singleton.1 this
  rw [hin entry hent hsou,hin other hoth hsou']

/- The states on the way to a disk without the staging directory and the journal. -/
theorem rollbackIncompleteStaging_attempts (hpha : transaction.phase=.prepared) (hent : entry ∈ transaction.active)
    (hsou : entry.source=.staged) (huni : ∀ other ∈ transaction.active, other.source=.staged → other=entry)
    (hjou : d.journal=journalOf host.uid transaction) (hsta : d.restoreStaging=true)
    (hinc : stagingIncomplete paths entry.metadata.id (d.slots entry.metadata.id)=.ok true)
    (hgoa : goal = { (Disk.stagedLens entry.metadata.id).set .absent d with journal := .absent }) :
    wp (rollbackIncompleteStaging host paths transaction.active)
      ⟨Attempting z host.uid paths transaction goal,fun done t => done=true ∧ t=goal,
        fun _ _ => False⟩ d := by
  have hrol : ∀ place ∈ removal host.remnants (d.slots entry.metadata.id).staged,
      Attempting z host.uid paths transaction goal ((Disk.stagedLens entry.metadata.id).set place d) := by
    intro place hpla
    have hinc':=stagingIncomplete_removal hinc place hpla
    have hgoa' : goal = { (Disk.stagedLens entry.metadata.id).set .absent
        ((Disk.stagedLens entry.metadata.id).set place d) with journal := .absent } := by
      rw [hgoa,Lens.set_set]
    exact .inr (.inl ⟨entry,hent,hsou,huni,hjou,hpha,hsta,hinc',hgoa'⟩)
  have hrun : ∀ entries, (∀ other ∈ entries, other.source=.staged → other=entry) → entry ∈ entries →
      wp (rollbackIncompleteStaging host paths entries)
        ⟨Attempting z host.uid paths transaction goal,fun done t => done=true ∧ t=goal,
          fun _ _ => False⟩ d := by
    intro entries
    induction entries with
    | nil => simp
    | cons head rest ih =>
      intro honl hmem
      apply (wp_ite _ _ _ d).2
      constructor
      · -- the head is not the staged entry
        intro hhea
        have hne : entry≠head := by
          intro heq
          exact hhea (heq ▸ hsou)
        exact ih (fun other hoth => honl other (mem_cons_of_mem _ hoth))
          (mem_of_ne_of_mem hne hmem)
      · intro hhea
        have hsam : head=entry := honl head mem_cons_self (not_not.1 hhea)
        subst hsam
        rw [wp_bind,wp_reads,hinc]
        apply (wp_bind _ _ _ d).2
        apply (wp_bind _ _ _ d).2
        apply (wp_zoom _ _ _ d).2
        apply (wp_writes _ _ _).2
        refine ⟨hrol,?_⟩
        have hlas : (removal host.remnants ((Disk.stagedLens head.metadata.id).get d)).getLastD
            ((Disk.stagedLens head.metadata.id).get d)=.absent := removal_last _
        rw [hlas]
        apply (wp_reads _ _ _).2
        have hsyn : ((Disk.stagedLens head.metadata.id).set .absent d).restoreStaging=true := hsta
        rw [hsyn]
        apply (wp_bind _ _ _ _).2
        apply (wp_zoom _ _ _ _).2
        have hpla : Disk.journalLens.get ((Disk.stagedLens head.metadata.id).set .absent d) =
            journalOf host.uid transaction := hjou
        rw [hpla]
        have hrem : Disk.journalLens.set .absent ((Disk.stagedLens head.metadata.id).set .absent d) =
            goal := hgoa.symm
        refine wp_of_ok rfl ?_ ?_
        · intro place hmem
          rw [mem_singleton.1 hmem]
          exact .inr (.inr (.inr hrem))
        · exact (wp_pure true _ _).2 ⟨rfl,hrem⟩
  exact hrun transaction.active huni hent

end Rollback

section Attempt
variable {z : Formats} {b : Build} {host : Host F R} {paths : StatePaths} {runtime : TransactionRuntime R}
  {transaction : StateTransaction} {goal : Disk F}

omit [EmptyCollection F] in
theorem readPendingTransaction_of_journal (hval : ValidTransaction z transaction) {d : Disk F}
    (hjou : d.journal=journalOf host.uid transaction) :
    readPendingTransaction z b host paths d=⟨[],.ok (some transaction)⟩ := by
  have hrea : readPendingTransactionDocument z b paths d.journal =
      .ok (some (⟨transaction,false,none⟩,.current transaction)) := by
    rw [hjou]
    exact readPendingTransactionDocument_current hval
  show Durable.bind _ _ d=_
  simp only [Durable.bind,result,reads,hrea]
  rfl

omit [EmptyCollection F] in
theorem readPendingTransaction_absent {d : Disk F} (hjou : d.journal=.absent) :
    readPendingTransaction z b host paths d=⟨[],.ok none⟩ := by
  have hrea : readPendingTransactionDocument z b paths d.journal=.ok none := by
    rw [hjou]
    rfl
  show Durable.bind _ _ d=_
  simp only [Durable.bind,result,reads,hrea]
  rfl

theorem ValidTransaction.tokens (h : ValidTransaction z transaction) :
    ∀ id ∈ transaction.runtime.verifyTokenIds,
      ∃ secret, transaction.secrets.computers.get id=some secret := by
  intro id hid
  have hsha:=(stateTransactionSchema_normal.1 h).shape
  have hpla:=(hsha.plan transaction.runtime.verifyTokenIds (by simp [TransactionValidationValue.shape,
    StateTransaction.validation])).2 id hid
  exact Record.get_isSome ((hsha.secretsMatch id).1 hpla)

theorem Underway.complete (hval : ValidTransaction z transaction) {d : Disk F}
    (h : Underway z host.uid paths transaction goal d) :
    ∀ entry ∈ transaction.active, entry.source=.staged →
      stagingIncomplete paths entry.metadata.id (d.slots entry.metadata.id)=.ok false := by
  obtain ⟨-,-,htar⟩ := h
  obtain ⟨e,he,-⟩ := map_eq_some_iff.1 htar
  simp only [realizedDisk,bind_eq_some_iff] at he
  obtain ⟨d₁,hroo,d₂,hens,-⟩ := he
  have h₁ : d₁=d := by
    unfold rootsTarget at hroo
    split at hroo
    · exact (Option.some.inj hroo).symm
    · simp at hroo
  subst h₁
  intro entry hent hsou
  have hslo:=((activeEntriesTarget_eq_some hval.ids.1).1 hens).2.1 entry hent
  rw [hsou] at hslo
  exact activeTarget_complete hslo

theorem recoverPendingTransaction_attempts (hval : ValidTransaction z transaction) (hrun : runtime.Succeeds)
    (hren : ∀ state, Returns (host.renderRuntime state)) (hgoa : goal.journal=.absent) (includeRuntime : Option Bool)
    (hw : Attempting z host.uid paths transaction goal w.disk) :
    wp (recoverPendingTransaction z b host paths ⟨includeRuntime,runtime⟩)
      ⟨fun t => Attempting z host.uid paths transaction goal t.disk,
        fun _ t => Attempting z host.uid paths transaction goal t.disk ∧
          (includeRuntime.getD true=true → t.disk=goal),fun _ _ => False⟩ w := by
  have hdon : ∀ d : Disk F, d=goal → Attempting z host.uid paths transaction goal d ∧
      (includeRuntime.getD true=true → d=goal) :=
    fun d hd => ⟨.inr (.inr (.inr hd)),fun _ => hd⟩
  have hfin : ∀ t : World F R, CommittedTo host.uid transaction goal t.disk →
      wp (finishTransaction host paths ⟨includeRuntime,runtime⟩
          ⟨paths,transaction.config,transaction.secrets⟩ { transaction with phase := .stateCommitted })
        ⟨fun u => Attempting z host.uid paths transaction goal u.disk,
          fun _ u => Attempting z host.uid paths transaction goal u.disk ∧
            (includeRuntime.getD true=true → u.disk=goal),fun _ _ => False⟩ t :=
    fun _ ht => finishTransaction_attempts hrun hren hval.tokens hgoa ht
  apply (wp_bind _ _ _ w).2
  apply (wp_zoom _ _ _ w).2
  rcases hw with hund | hrolling | hcommitted | hreached
  · refine wp_of_ok (readPendingTransaction_of_journal hval hund.1) (by simp) ?_
    apply (wp_bind _ _ _ _).2
    apply (wp_zoom _ _ _ _).2
    apply (wp_ite _ _ _ _).2
    refine ⟨fun _ => ?_,fun hpha => absurd hund.2.1 hpha⟩
    apply (rollbackIncompleteStaging_complete (hund.complete hval)).mono
    · exact fun _ h => h.elim
    · rintro _ d ⟨rfl,rfl⟩
      apply (wp_bind _ _ _ _).2
      apply (wp_bind _ _ _ _).2
      apply (runtime_wp (hrun.reconcileContracts _ _) _).mono
      · intro t ht
        exact .inl (by rw [ht]; exact hund)
      · intro _ t ht
        have ht' : Underway z host.uid paths transaction goal t.disk := by
          rw [ht]
          exact hund
        apply (wp_bind _ _ _ t).2
        have hwhe : (decide (transaction.phase=.prepared))=true := by simp [hund.2.1]
        rw [hwhe]
        apply (commitState_attempts hval hren ht').mono (fun _ h => h) ?_ (fun _ _ h => h)
        intro _ u hu
        apply (hfin u hu).mono (fun _ h => h) ?_ (fun _ _ h => h)
        exact fun _ v hv => (wp_pure true _ v).2 hv
      · exact fun _ _ h => h
    · exact fun _ _ h => h
  · obtain ⟨entry,hent,hsou,huni,hjou,hpha,hsta,hinc,hend⟩ := hrolling
    refine wp_of_ok (readPendingTransaction_of_journal hval hjou) (by simp) ?_
    apply (wp_bind _ _ _ _).2
    apply (wp_zoom _ _ _ _).2
    apply (wp_ite _ _ _ _).2
    refine ⟨fun _ => ?_,fun hpha' => absurd hpha hpha'⟩
    apply (rollbackIncompleteStaging_attempts hpha hent hsou huni hjou hsta
      hinc hend).mono (fun _ h => h) ?_ (fun _ _ h => h)
    rintro _ d ⟨rfl,hd⟩
    exact (wp_pure true _ _).2 (hdon _ hd)
  · have hjou : w.disk.journal=journalOf host.uid { transaction with phase := .stateCommitted } := by
      rw [hcommitted]
    refine wp_of_ok (readPendingTransaction_of_journal (hval.phase .stateCommitted) hjou) (by simp) ?_
    apply (wp_bind _ _ _ _).2
    apply (wp_zoom _ _ _ _).2
    apply (wp_pure false _ _).2
    apply (wp_bind _ _ _ _).2
    apply (wp_bind _ _ _ _).2
    apply (runtime_wp (hrun.reconcileContracts _ _) _).mono
    · intro t ht
      exact .inr (.inr (.inl (ht.trans hcommitted)))
    · intro _ t ht
      apply (wp_bind _ _ _ t).2
      apply (wp_pure () _ t).2
      apply (hfin t (ht.trans hcommitted)).mono (fun _ h => h) ?_ (fun _ _ h => h)
      exact fun _ v hv => (wp_pure true _ v).2 hv
    · exact fun _ _ h => h
  · have hjou : w.disk.journal=.absent := by
      rw [hreached]
      exact hgoa
    refine wp_of_ok (readPendingTransaction_absent hjou) (by simp) ?_
    exact (wp_pure false _ _).2 (hdon _ hreached)

end Attempt

section Start
variable {z : Formats} {b : Build} {host : Host F R} {paths : StatePaths} {runtime : TransactionRuntime R}
  {transaction : StateTransaction} {goal : Disk F} {includeRuntime : Option Bool}

def StagingComplete (paths : StatePaths) (transaction : StateTransaction) (d : Disk F) : Prop :=
  ∀ entry ∈ transaction.active, entry.source=.staged →
    stagingIncomplete paths entry.metadata.id (d.slots entry.metadata.id)=.ok false

structure Starts (z : Formats) (uid : ℕ) (paths : StatePaths) (transaction : StateTransaction)
    (goal d : Disk F) : Prop where
  journal : d.journal=.absent
  goalJournal : goal.journal=.absent
  attempting : Attempting z uid paths transaction goal { d with journal := journalOf uid transaction }
  installed : transaction.phase=.prepared → StagingComplete paths transaction d →
    Installed uid transaction d goal

omit [EmptyCollection F] in
theorem readPendingTransactionDocument_none {place : Place TransactionDocument}
    (h : readPendingTransactionDocument z b paths place=.ok none) : place=.absent := by
  unfold readPendingTransactionDocument at h
  split at h
  · rfl
  · split at h
    · simp at h
    · split at h <;> simp at h
  · simp at h

omit [EmptyCollection F] in
theorem readPendingTransaction_none (d : Disk F) :
    wp (readPendingTransaction z b host paths) ⟨fun _ => True,
      fun pending t => pending=none → d.journal=.absent ∧ t=d,fun _ _ => True⟩ d := by
  apply (wp_bind _ _ _ d).2
  apply (wp_reads _ _ d).2
  cases hrea : readPendingTransactionDocument z b paths d.journal with
  | error e => trivial
  | ok pending =>
    cases pending with
    | none => exact (wp_pure none _ d).2 fun _ => ⟨readPendingTransactionDocument_none hrea,rfl⟩
    | some document =>
      apply (wp_ite _ _ _ d).2
      refine ⟨fun _ => ?_,fun _ => (wp_pure _ _ d).2 (by simp)⟩
      apply (wp_bind _ _ _ d).2
      apply wp_of_forall (fun _ => trivial) ?_ (fun _ _ => trivial)
      intro _ t
      apply (wp_bind _ _ _ t).2
      apply wp_of_forall (fun _ => trivial) ?_ (fun _ _ => trivial)
      exact fun _ u => (wp_pure _ _ u).2 (by simp)

omit [EmptyCollection F] in
theorem prepareStateTransaction_wp (hval : ValidTransaction z transaction) (w : World F R) :
    wp (prepareStateTransaction z b host paths transaction)
      ⟨fun t => w.disk.journal=.absent → t.disk = { w.disk with journal := journalOf host.uid transaction },
        fun _ t => w.disk.journal=.absent ∧
          t.disk = { w.disk with journal := journalOf host.uid transaction },fun _ _ => True⟩ w := by
  apply (wp_bind _ _ _ w).2
  apply (wp_zoom _ _ _ w).2
  by_cases hjou : w.disk.journal=.absent
  · refine wp_of_ok (readPendingTransaction_absent hjou) (by simp) ?_
    rw [writeTransaction_valid hval]
    apply (wp_ite _ _ _ _).2
    refine ⟨fun hpen => by simp at hpen,fun _ => ?_⟩
    apply (wp_zoom _ _ _ _).2
    apply (wp_zoom _ _ _ _).2
    have hpla : Disk.journalLens.get (World.diskLens.get w)=.absent := hjou
    simp only [getLastD_nil,Lens.set_get,hpla]
    refine wp_of_ok rfl ?_ ⟨hjou,rfl⟩
    intro place hmem _
    rw [mem_singleton.1 hmem]
    rfl
  · apply (readPendingTransaction_none w.disk).mono
    · exact fun _ _ habs => absurd habs hjou
    · intro pending d hnon
      cases pending with
      | none => exact absurd (hnon rfl).1 hjou
      | some pending => exact (wp_fail _ _ _).2 trivial
    · exact fun _ _ h => h

theorem executeStateTransaction_starts (hval : ValidTransaction z transaction)
    (hren : ∀ state, Returns (host.renderRuntime state)) (w : World F R) :
    wp (executeStateTransaction z b host paths transaction ⟨includeRuntime,runtime⟩) ⟨fun _ => True,
      fun _ _ => ∃ goal, Starts z host.uid paths transaction goal w.disk,fun _ _ => True⟩ w := by
  apply (wp_bind _ _ _ w).2
  apply (prepareStateTransaction_wp hval w).mono (fun _ _ => trivial) ?_ (fun _ _ h => h)
  rintro - t ⟨hjou,ht⟩
  have hpen : t.disk.journal=journalOf host.uid transaction := by rw [ht]
  have hslo : t.disk.slots=w.disk.slots := by rw [ht]
  apply (wp_bind _ _ _ t).2
  apply (wp_bind _ _ _ t).2
  apply (wp_zoom _ _ _ t).2
  refine wp_of_ok (readPendingTransaction_of_journal hval hpen) (by simp) ?_
  apply (wp_bind _ _ _ _).2
  apply (wp_zoom _ _ _ _).2
  cases hpha : transaction.phase with
  | stateCommitted =>
    have hcod : CommittedTo host.uid transaction w.disk
        { w.disk with journal := journalOf host.uid transaction } := by
      have : { transaction with phase := .stateCommitted } = transaction := by rw [← hpha]
      rw [CommittedTo,this]
    have hsts : ∃ goal, Starts z host.uid paths transaction goal w.disk :=
      ⟨w.disk,hjou,hjou,.inr (.inr (.inl hcod)),by simp [hpha]⟩
    exact wp_of_forall (fun _ => trivial)
      (fun _ _ => wp_of_forall (fun _ => trivial) (fun _ _ => (wp_pure () _ _).2 hsts)
        (fun _ _ => trivial)) (fun _ _ => trivial)
  | prepared =>
    apply (wp_ite _ _ _ _).2
    refine ⟨fun _ => ?_,fun h => absurd hpha h⟩
    apply ((rollbackIncompleteStaging_found).and
      (rollbackIncompleteStaging_removes transaction.active _)).mono (fun _ _ => trivial) ?_
      (fun _ _ _ => trivial)
    intro done d hfou
    cases done with
    | true =>
      obtain ⟨⟨entry,hent,hsou,hstg,hinc⟩,-⟩ := hfou
      have hinc' : stagingIncomplete paths entry.metadata.id (w.disk.slots entry.metadata.id) =
          .ok true := by
        rw [← hslo]
        exact hinc
      have hfoundStaging : t.disk.restoreStaging=true := hstg
      have hsta : w.disk.restoreStaging=true := by rwa [ht] at hfoundStaging
      have hrol : RollingBack host.uid paths transaction
          { (Disk.stagedLens entry.metadata.id).set .absent w.disk with journal := .absent }
          { w.disk with journal := journalOf host.uid transaction } :=
        ⟨entry,hent,hsou,
          fun other hoth hsou' => hval.staged_unique hent hsou hoth hsou',rfl,hpha,
          hsta,hinc',rfl⟩
      apply (wp_pure true _ _).2
      apply (wp_pure () _ _).2
      refine ⟨_,hjou,rfl,.inr (.inl hrol),?_⟩
      intro _ hcom
      have := hcom entry hent hsou
      rw [hinc'] at this
      simp at this
    | false =>
      have hsam : d=t.disk := hfou.2
      apply (wp_bind _ _ _ _).2
      apply (wp_bind _ _ _ _).2
      have hkee : Keeps (fun u : World F R => World.diskLens.get u=d)
          (zoom World.runtimeLens (runtime.reconcileContracts
            ⟨paths,transaction.config,transaction.secrets⟩ transaction)) :=
        keeps_runtime (P := fun u => u=d)
      apply (hkee _ rfl).mono (fun _ _ => trivial) ?_ (fun _ _ _ => trivial)
      intro _ u hu
      apply (wp_bind _ _ _ u).2
      have hwhe : (decide (transaction.phase=.prepared))=true := by simp [hpha]
      rw [hwhe]
      obtain ⟨hact,htra,hdis⟩ := hval.ids
      apply (wp_bind _ _ _ u).2
      apply (realizeState_converges hact htra hdis (hren _) u).mono (fun _ _ => trivial) ?_
        (fun _ _ _ => trivial)
      intro _ v hv
      have hrea : realizedDisk z host.uid ⟨paths,transaction.config,transaction.secrets⟩ transaction
          { w.disk with journal := journalOf host.uid transaction } = some v.disk := by
        rw [← ht,← hsam,← hu]
        exact hv
      have hund : Underway z host.uid paths transaction { v.disk with journal := .absent }
          { w.disk with journal := journalOf host.uid transaction } :=
        ⟨rfl,hpha,by rw [hrea]; rfl⟩
      have hins:=realizedDisk_installed hval hrea
      have hsts : ∃ goal, Starts z host.uid paths transaction goal w.disk :=
        ⟨_,hjou,rfl,.inl hund,fun _ _ => ⟨hins.config,hins.secrets,
          hins.active,hins.trash,hins.homes⟩⟩
      have hlas : ∀ x : World F R, wp (pure () : Durable (World F R) String Unit)
          ⟨fun _ => True,fun _ _ => ∃ goal, Starts z host.uid paths transaction goal w.disk,
            fun _ _ => True⟩ x := fun x => (wp_pure () _ x).2 hsts
      refine wp_of_forall (fun _ => trivial) (fun _ x => ?_) (fun _ _ => trivial)
      exact wp_of_forall (fun _ => trivial) (fun _ y => (wp_pure true _ y).2 (hlas y))
        (fun _ _ => trivial)

/- The attempt that writes the journal, wherever it is cut. -/
theorem executeStateTransaction_attempts (hval : ValidTransaction z transaction) (hrun : runtime.Succeeds)
    (hren : ∀ state, Returns (host.renderRuntime state)) (hsts : Starts z host.uid paths transaction goal w.disk) :
    wp (executeStateTransaction z b host paths transaction ⟨includeRuntime,runtime⟩)
      ⟨fun t => Attempting z host.uid paths transaction goal t.disk,
        fun _ t => includeRuntime.getD true=true → t.disk=goal,fun _ _ => True⟩ w := by
  apply (wp_bind _ _ _ w).2
  have hsta : ∀ t : World F R, t.disk = { w.disk with journal := journalOf host.uid transaction } →
      Attempting z host.uid paths transaction goal t.disk := by
    intro t ht
    rw [ht]
    exact hsts.attempting
  apply (prepareStateTransaction_wp hval w).mono
  · exact fun t ht => hsta t (ht hsts.journal)
  · rintro - t ⟨-,ht⟩
    apply (wp_bind _ _ _ t).2
    apply (recoverPendingTransaction_attempts hval hrun hren hsts.goalJournal
      (some (includeRuntime.getD true)) (hsta t ht)).mono (fun _ h => h) ?_ (fun _ _ h => h.elim)
    exact fun _ u hu => (wp_pure () _ u).2 hu.2
  · exact fun _ _ h => h

/-- A disk after attempts that were cut, at any step of each. The first has made a step;
an attempt that runs to its end is one that is cut after its last step. -/
inductive Interrupted (z : Formats) (b : Build) (host : Host F R) (paths : StatePaths)
    (runtime : TransactionRuntime R) (transaction : StateTransaction) (w : World F R) : World F R → Prop
  | execute {t : World F R} (includeRuntime : Option Bool) :
      (executeStateTransaction z b host paths transaction ⟨includeRuntime,runtime⟩).CutAt w t →
      Interrupted z b host paths runtime transaction w t
  | recover {t u : World F R} (includeRuntime : Option Bool) :
      Interrupted z b host paths runtime transaction w t →
      (recoverPendingTransaction z b host paths ⟨includeRuntime,runtime⟩).Visits t u →
      Interrupted z b host paths runtime transaction w u

theorem Interrupted.attempting (hval : ValidTransaction z transaction) (hrun : runtime.Succeeds)
    (hren : ∀ state, Returns (host.renderRuntime state)) {t : World F R}
    (hsta : Starts z host.uid paths transaction goal w.disk) (h : Interrupted z b host paths runtime transaction w t) :
    Attempting z host.uid paths transaction goal t.disk := by
  induction h with
  | execute includeRuntime hcut =>
    exact (executeStateTransaction_attempts hval hrun hren hsta).cutAt hcut
  | recover includeRuntime _ hvis ih =>
    rcases hvis with rfl | hcut
    · exact ih
    · exact (recoverPendingTransaction_attempts hval hrun hren hsta.goalJournal
        includeRuntime ih).cutAt hcut

/-- However often the attempts are cut, the attempt that is not cut ends on the disk on
which an uninterrupted run ends. -/
theorem transaction_converges (hvalid : ValidTransaction z transaction) (hruntime : runtime.Succeeds)
    (hrender : ∀ state, Returns (host.renderRuntime state)) {w t : World F R}
    {uninterrupted last : Option Bool} (huninterrupted : uninterrupted.getD true=true)
    (hlast : last.getD true=true)
    (hrun : (executeStateTransaction z b host paths transaction ⟨uninterrupted,runtime⟩).result w =
      .ok ())
    (hattempts : Interrupted z b host paths runtime transaction w t) :
    ∃ recovered, (recoverPendingTransaction z b host paths ⟨last,runtime⟩).result t=.ok recovered ∧
      ((recoverPendingTransaction z b host paths ⟨last,runtime⟩).final t).disk =
        ((executeStateTransaction z b host paths transaction ⟨uninterrupted,runtime⟩).final w).disk ∧
      ((recoverPendingTransaction z b host paths ⟨last,runtime⟩).final t).disk.journal=.absent ∧
      (transaction.phase=.prepared → StagingComplete paths transaction w.disk →
        Installed host.uid transaction w.disk
          ((recoverPendingTransaction z b host paths ⟨last,runtime⟩).final t).disk) := by
  obtain ⟨goal,hsta⟩ := (executeStateTransaction_starts hvalid hrender w).returned hrun
  have hend : ((executeStateTransaction z b host paths transaction
      ⟨uninterrupted,runtime⟩).final w).disk=goal :=
    (executeStateTransaction_attempts hvalid hruntime hrender hsta).returned hrun huninterrupted
  obtain ⟨recovered,hres,-,hfin⟩ := (recoverPendingTransaction_attempts (b := b) hvalid hruntime
    hrender hsta.goalJournal last (hattempts.attempting hvalid hruntime hrender hsta)).returns
      (fun _ _ h => h)
  have hgoa:=hfin hlast
  refine ⟨recovered,hres,hgoa.trans hend.symm,?_,?_⟩
  · rw [hgoa]
    exact hsta.goalJournal
  · intro hpha hcom
    rw [hgoa]
    exact hsta.installed hpha hcom

end Start

def exampleExecution (phase : TransactionPhase) : Durable (World (List String) Unit) String Unit :=
  executeStateTransaction exampleFormats exampleBuild exampleHost ⟨"/home/user/.qubicl"⟩
    (exampleTransaction phase) ⟨none,exampleRuntime⟩

def exampleStart : World (List String) Unit := ⟨exampleDisk .absent,()⟩

def exampleCut (phase : TransactionPhase) : World (List String) Unit :=
  ((exampleExecution phase) exampleStart).trace.headD exampleStart

theorem exampleCut_interrupted {phase : TransactionPhase}
    (h : 0<((exampleExecution phase) exampleStart).trace.length) :
    Interrupted exampleFormats exampleBuild exampleHost ⟨"/home/user/.qubicl"⟩ exampleRuntime
      (exampleTransaction phase) exampleStart (exampleCut phase) := by
  apply Interrupted.execute none
  show exampleCut phase ∈ ((exampleExecution phase) exampleStart).trace
  unfold exampleCut
  cases htra : ((exampleExecution phase) exampleStart).trace with
  | nil => simp [htra] at h
  | cons t rest => simp

theorem exampleRuntime_succeeds : exampleRuntime.Succeeds where
  reconcileContracts _ _ := returns_pure ()
  validate := returns_pure ()
  ensureImages _ := returns_pure ()
  startGateway _ _ _ := returns_pure ()
  replaceStoppedGateway _ _ := returns_pure ()
  verifyGateway _ _ := returns_pure ()
  reconnect _ _ := returns_pure ()
  waitForRemoval _ _ := returns_pure ()
  remove _ _ := returns_pure ()
  removeReplacement _ _ _ := returns_pure ()
  replaceStopped _ _ _ := returns_pure ()
  start _ _ := returns_pure ()
  verifyToken _ _ _ := returns_pure ()

theorem ok_of_toBool {r : Except String Unit} (h : r.toBool=true) : r=.ok () := by
  cases r with
  | ok u => rfl
  | error e => simp [Except.toBool] at h

theorem exampleTransaction_valid (phase : TransactionPhase) :
    ValidTransaction exampleFormats (exampleTransaction phase) := by
  show (stateTransactionSchema exampleFormats transactionFormatVersion).parse (exampleTransaction phase) =
    some (exampleTransaction phase)
  cases phase <;> decide +kernel

theorem transaction_converges_example :
    ∃ recovered, exampleRecovery.result (exampleCut .prepared)=.ok recovered ∧
      (exampleRecovery.final (exampleCut .prepared)).disk =
        ((exampleExecution .prepared).final exampleStart).disk ∧
      (exampleRecovery.final (exampleCut .prepared)).disk.journal=.absent ∧
      ((exampleTransaction .prepared).phase=.prepared →
        StagingComplete ⟨"/home/user/.qubicl"⟩ (exampleTransaction .prepared) exampleStart.disk →
        Installed 1000 (exampleTransaction .prepared) exampleStart.disk
          (exampleRecovery.final (exampleCut .prepared)).disk) :=
  @transaction_converges (List String) Unit _ exampleFormats exampleBuild exampleHost
    ⟨"/home/user/.qubicl"⟩ exampleRuntime (exampleTransaction .prepared) (exampleTransaction_valid .prepared)
    exampleRuntime_succeeds (fun _ => returns_pure ()) exampleStart (exampleCut .prepared) none (some true)
    rfl rfl (ok_of_toBool (by decide +kernel)) (exampleCut_interrupted (by decide +kernel))

/-- A transaction whose phase is `state-committed` from the start leaves the configuration
as it was. -/
theorem committed_transaction_not_installed :
    ValidTransaction exampleFormats (exampleTransaction .stateCommitted) ∧
      (exampleExecution .stateCommitted).result exampleStart=.ok () ∧
      Interrupted exampleFormats exampleBuild exampleHost ⟨"/home/user/.qubicl"⟩ exampleRuntime
        (exampleTransaction .stateCommitted) exampleStart (exampleCut .stateCommitted) ∧
      (exampleRecovery.final (exampleCut .stateCommitted)).disk.files.config=.absent :=
  ⟨exampleTransaction_valid .stateCommitted,ok_of_toBool (by decide +kernel),
    exampleCut_interrupted (by decide +kernel),by decide +kernel⟩

end Qubicl.Cli
