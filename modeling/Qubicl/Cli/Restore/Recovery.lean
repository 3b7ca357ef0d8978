import Qubicl.Cli.Restore.Command
import Qubicl.Cli.Transaction.Recovery

/-!
# Recovery of a restore

What recovery does with the journal of a restore, whatever the calls on containers do: it
removes a staging tree without its marker, and carries the transaction out where the marker
is there or the tree is in place already.
-/

namespace Qubicl.Cli
open Foundation Core Durable List

variable {A P F R : Type} [EmptyCollection F]

/-! ## The durable state of a transaction, whatever the calls on containers do -/

section Realize
variable {z : Formats} {host : Host F R} {state : LoadedState} {transaction : StateTransaction}

def Host.patient (host : Host F R) : Host F R :=
  { host with renderRuntime := fun state => forgiving (host.renderRuntime state) }

theorem realizeState_within (host : Host F R) :
    Within (realizeState z host state transaction) (realizeState z host.patient state transaction) := by
  apply (Within.refl _).bind
  intro _
  apply (Within.refl _).bind
  intro _
  apply (Within.refl _).bind
  intro _
  apply ((within_forgiving _).zoom World.runtimeLens).bind
  exact fun _ => Within.refl _

theorem realizeState_resumes (hval : ValidTransaction z transaction) (w : World F R) :
    wp (realizeState z host state transaction)
      ⟨fun t => realizedDisk z host.uid state transaction t.disk=realizedDisk z host.uid state transaction w.disk,
        fun _ t => realizedDisk z host.uid state transaction w.disk=some t.disk,fun _ _ => True⟩ w := by
  obtain ⟨hact,htra,hdis⟩ := hval.ids
  exact (realizeState_within host).wp
    (@realizeState_converges F R _ z host.patient state transaction hact htra hdis (returns_forgiving _) w)

def Arriving (s : Slot F) : Prop := s.trash=.absent ∧ (s.active=.absent ∨ s.staged=.absent)

theorem ensureActiveDirectory_arriving {uid : ℕ} {paths : StatePaths} {metadata : ComputerConfig} :
    Keeps (Arriving (F := F)) (ensureActiveDirectory uid paths .staged metadata) := by
  intro s hs
  have hfra : ∀ {m : Durable (Place (ComputerDirectory F)) String Unit},
      Keeps (fun s : Slot F => s.trash=.absent ∧ s.staged=.absent) (zoom Slot.activeLens m) :=
    fun {m} => keeps_zoom_of_frame fun _ _ h => h
  have hmov : ∀ {m n : Durable (Place (ComputerDirectory F)) String Unit} {u : Slot F}, u.trash=.absent →
      u.staged=.absent → wp (zoom Slot.activeLens m >>= fun _ => zoom Slot.activeLens n)
        ⟨Arriving,fun _ => Arriving,fun _ => Arriving⟩ u := by
    intro m n u htra hsta
    have harr : ∀ t : Slot F, t.trash=.absent ∧ t.staged=.absent → Arriving t := fun t ht => ⟨ht.1,Or.inr ht.2⟩
    exact ((hfra.bind fun _ => hfra) u ⟨htra,hsta⟩).mono harr (fun _ => harr) fun _ => harr
  apply wp_realDirectoryExists fun _ _ => hs
  intro activeExists hact
  apply wp_realDirectoryExists fun _ _ => hs
  intro trashExists htra
  apply (wp_ite _ _ _ s).2
  refine ⟨fun _ => (wp_fail _ _ s).2 hs,fun _ => ?_⟩
  apply (wp_ite _ _ _ s).2
  refine ⟨fun _ => (wp_fail _ _ s).2 hs,fun _ => ?_⟩
  apply (wp_bind _ _ _ s).2
  cases activeExists with
  | true =>
    have hsta : s.staged=.absent := hs.2.resolve_left fun habs => by
      rw [habs] at hact
      cases hact
    exact (wp_pure () _ s).2 (hmov hs.1 hsta)
  | false =>
    apply (wp_bind _ _ _ s).2
    apply (wp_reads _ _ s).2
    cases realDirectoryExists (restoreStage paths metadata.id) s.staged with
    | error e => exact hs
    | ok stagedExists =>
      apply (wp_bind _ _ _ s).2
      apply (wp_reads _ _ s).2
      generalize (if stagedExists=true then restoreReadyExists paths metadata.id s else .ok false)=ready
      cases ready with
      | error e => exact hs
      | ok ready =>
        apply (wp_ite _ _ _ s).2
        refine ⟨fun _ => ?_,fun _ => (wp_fail _ _ s).2 hs⟩
        exact wp_durableRename hact ⟨hs.1,Or.inr rfl⟩ (hmov hs.1 rfl)

end Realize

structure RestoresAt (z : Formats) (id : String) (transaction : StateTransaction) : Prop where
  valid : ValidTransaction z transaction
  phase : transaction.phase=.prepared
  trash : transaction.trash=[]
  staged : ∃ entry ∈ transaction.active, entry.source=.staged ∧ entry.metadata.id=id

section Entries
variable {z : Formats} {id : String} {transaction : StateTransaction}

section
variable (h : RestoresAt z id transaction) {entry : ActiveTransactionEntry ComputerConfig}
   (hentry : entry ∈ transaction.active)
include h hentry

theorem RestoresAt.staged_id (hsou : entry.source=.staged) : entry.metadata.id=id := by
  obtain ⟨one,hone,honeSource,hid⟩ := h.staged
  rw [h.valid.staged_unique hone honeSource hentry hsou,hid]

theorem RestoresAt.source (hid : entry.metadata.id=id) : entry.source=.staged := by
  obtain ⟨one,hone,honeSource,honeId⟩ := h.staged
  have hsam : one=entry := inj_on_of_nodup_map h.valid.ids.1 hone hentry (honeId.trans hid.symm)
  rw [← hsam,honeSource]

end

theorem realizeState_arriving {host : Host F R} {paths : StatePaths} (h : RestoresAt z id transaction) :
    Keeps (fun w : World F R => Arriving (w.disk.slots id))
      (realizeState z host ⟨paths,transaction.config,transaction.secrets⟩ transaction) := by
  have hpar : ∀ {S : Type} {l : Lens (Disk F) S} {m : Durable S String Unit},
      (∀ d t, (l.set t d).slots=d.slots) →
      Keeps (fun w : World F R => Arriving (w.disk.slots id)) (zoom World.diskLens (zoom l m)) := fun hslo =>
    keeps_disk (P := fun d => Arriving (d.slots id)) fun d t hd => by rw [hslo d t]; exact hd
  have hloo : Keeps (fun w : World F R => Arriving (w.disk.slots id))
      (zoom World.diskLens (reads (assertStateDirectories (F := F) paths))) :=
    Keeps.get (l := World.diskLens) (P := fun d : Disk F => Arriving (d.slots id)) (keeps_reads _)
  have hent : Keeps (fun w : World F R => Arriving (w.disk.slots id)) (zoom World.diskLens
      (zoom Disk.slotsLens (ensureActiveDirectories host.uid paths transaction.active))) := by
    apply Keeps.get (l := World.diskLens) (P := fun d : Disk F => Arriving (d.slots id))
    apply Keeps.get (l := Disk.slotsLens) (P := fun slots : String → Slot F => Arriving (slots id))
    apply keeps_forEach
    intro entry hentry
    by_cases hid : entry.metadata.id=id
    · rw [h.source hentry hid,hid]
      exact Keeps.get (l := Lens.at id) ensureActiveDirectory_arriving
    · apply keeps_zoom_of_frame
      intro slots slot hslo
      have hne : ¬ id=entry.metadata.id := fun heq => hid heq.symm
      have hoth : (Lens.at entry.metadata.id).set slot slots id=slots id := by
        simp [Lens.at,hne]
      rw [hoth]
      exact hslo
  apply hloo.bind
  intro _
  apply hent.bind
  intro _
  apply (hpar fun _ _ => rfl).bind
  intro _
  apply (keeps_runtime (P := fun d : Disk F => Arriving (d.slots id))).bind
  intro _
  rw [h.trash]
  exact Keeps.get (l := World.diskLens) (P := fun d : Disk F => Arriving (d.slots id))
    (Keeps.get (l := Disk.slotsLens) (P := fun slots : String → Slot F => Arriving (slots id)) (keeps_pure ()))

end Entries

def stagedDisk (d : Disk F) (id : String) (journal : Place TransactionDocument) (root : Bool)
    (staged : Place (ComputerDirectory F)) : Disk F :=
  { (Disk.stagedLens id).set staged d with journal := journal, restoreStaging := root }

def Unready : Place (ComputerDirectory F) → Prop
  | .absent => True
  | .real _ _ c => c.restoreReady=.absent
  | _ => False

/-- The journal is gone, and the tree with it. -/
def Undone (id : String) (before d : Disk F) : Prop :=
  ∃ root, d=stagedDisk before id .absent root .absent

/-- The journal stands for a tree that is not complete. -/
def Reserved (uid : ℕ) (id : String) (transaction : StateTransaction) (before d : Disk F) : Prop :=
  ∃ root staged, Unready staged ∧ d=stagedDisk before id (journalOf uid transaction) root staged

def Complete (uid : ℕ) (good : Place (HomeDirectory F) → Prop) (c : ComputerDirectory F) : Prop :=
  good c.home ∧ c.restoreReady=.real uid 0o600 ()

def readyDisk (uid : ℕ) (id : String) (transaction : StateTransaction) (before : Disk F) (c : ComputerDirectory F) :
    Disk F :=
  stagedDisk before id (journalOf uid transaction) true (.real uid 0o700 c)

section Places
variable (z : Formats) (uid : ℕ) (paths : StatePaths) (id : String) (transaction : StateTransaction)

/-- The transaction is being carried out, or will be; `ready` is the disk it is carried out from. -/
structure Forward (ready d : Disk F) : Prop where
  journal : d.journal=journalOf uid transaction
  realized : realizedDisk z uid ⟨paths,transaction.config,transaction.secrets⟩ transaction d =
    realizedDisk z uid ⟨paths,transaction.config,transaction.secrets⟩ transaction ready
  kept : TreesKept uid (ready.slots id) (d.slots id)
  arriving : Arriving (d.slots id)

def Placed (journal : Place TransactionDocument) (ready d : Disk F) : Prop :=
  ∃ e, realizedDisk z uid ⟨paths,transaction.config,transaction.secrets⟩ transaction ready=some e ∧
    d = { e with journal }

/-- Where attempts at a restore can be: nothing was left, or the tree is not complete, or it was. -/
def Restoring (good : Place (HomeDirectory F) → Prop) (before d : Disk F) : Prop :=
  Undone id before d ∨ Reserved uid id transaction before d ∨
    ∃ c, Complete uid good c ∧
      (Forward z uid paths id transaction (readyDisk uid id transaction before c) d ∨
        Placed z uid paths transaction (journalOf uid { transaction with phase := .stateCommitted })
          (readyDisk uid id transaction before c) d ∨
        Placed z uid paths transaction .absent (readyDisk uid id transaction before c) d)

/-- Where they end. -/
def Settled (good : Place (HomeDirectory F) → Prop) (before d : Disk F) : Prop :=
  Undone id before d ∨ ∃ c, Complete uid good c ∧
    Placed z uid paths transaction .absent (readyDisk uid id transaction before c) d

end Places

variable {journal : Place TransactionDocument} {staged : Place (ComputerDirectory F)} {w : World F R}

section Steps
variable {z : Formats} {b : Build} {host : Host F R} {paths : StatePaths} {id : String}
  {transaction : StateTransaction} {good : Place (HomeDirectory F) → Prop} {before d : Disk F}

omit [EmptyCollection F] in
@[simp] theorem stagedDisk_slots (journal : Place TransactionDocument) (root : Bool)
    (staged : Place (ComputerDirectory F)) :
    (stagedDisk d id journal root staged).slots id = { d.slots id with staged } := by
  simp [stagedDisk,Disk.stagedLens,Lens.comp,Lens.at,Disk.slotsLens,Slot.stagedLens]

omit [EmptyCollection F] in
theorem set_stagedDisk {root : Bool} {staged' : Place (ComputerDirectory F)} :
    (Disk.stagedLens id).set staged' (stagedDisk d id journal root staged)=stagedDisk d id journal root staged' := by
  simp [stagedDisk,Disk.stagedLens,Lens.comp,Lens.at,Disk.slotsLens,Slot.stagedLens]

theorem Forward.complete {ready : Disk F} (h : RestoresAt z id transaction)
    (hrea : ∃ owner mode c, ready.slots id=⟨.absent,.absent,.real owner mode c⟩ ∧ c.restoreReady.isReal=true)
    (hd : Forward z host.uid paths id transaction ready d) :
    ∀ entry ∈ transaction.active, entry.source=.staged →
      stagingIncomplete paths entry.metadata.id (d.slots entry.metadata.id)=.ok false := by
  intro entry hentry hsou
  rw [h.staged_id hentry hsou]
  obtain ⟨owner,mode,c,hslo,hmar⟩ := hrea
  have hkep:=hd.kept
  rw [hslo] at hkep
  have hact : (d.slots id).active.isReal=true → stagingIncomplete paths id (d.slots id)=.ok false := by
    intro hrel
    simp [stagingIncomplete,realDirectoryExists_iff.2 hrel,bind,Except.bind]
  have honl : ∀ {p}, OnlyAt host.uid p (d.slots id) → stagingIncomplete paths id (d.slots id)=.ok false := by
    intro p honl
    rcases honl with ⟨hrel,-,-⟩ | ⟨-,hrel,-⟩
    · exact hact hrel
    · rw [hd.arriving.1] at hrel
      cases hrel
  rcases hkep.staged with hsam | ⟨-,-,-,-,hmov⟩
  · rcases hkep.fresh rfl rfl hsam with ⟨habs,-⟩ | hnew
    · have hsta : (d.slots id).staged=.real owner mode c := hsam
      cases hc : c.restoreReady <;>
        simp_all [stagingIncomplete,restoreReadyExists,realDirectoryExists,realFileExists,existsAs,Place.isReal,
          bind,Except.bind]
    · exact honl hnew
  · exact honl hmov

omit [EmptyCollection F] in
theorem wp_removeStage {root : Bool} :
    wp (removeStage host paths id)
      ⟨fun t => ∃ place ∈ removal host.remnants staged, t=stagedDisk d id journal root place,
        fun _ t => t=stagedDisk d id journal root .absent,
        fun _ t => t=stagedDisk d id journal root .absent⟩ (stagedDisk d id journal root staged) := by
  have hget : (Disk.stagedLens id).get (stagedDisk d id journal root staged)=staged := by
    show ((stagedDisk d id journal root staged).slots id).staged=staged
    rw [stagedDisk_slots]
  apply (wp_bind _ _ _ _).2
  apply (wp_zoom _ _ _ _).2
  rw [hget]
  refine (wp_writes _ _ _).2 ⟨fun place hpla => ⟨place,hpla,set_stagedDisk⟩,?_⟩
  rw [removal_last]
  apply (wp_reads _ _ _).2
  split
  · exact set_stagedDisk
  · exact set_stagedDisk

omit [EmptyCollection F] in
theorem Unready.removal {place : Place (ComputerDirectory F)} (h : Unready place) :
    ∀ place' ∈ removal host.remnants place, Unready place' := by
  intro place' hmem
  cases place with
  | absent => cases hmem
  | real owner mode c =>
    rcases mem_append.1 hmem with hrem | hlast
    · obtain ⟨r,hr,rfl⟩ := mem_map.1 hrem
      exact host.remnants_ready c h r hr
    · rw [mem_singleton.1 hlast]
      trivial
  | link => exact h.elim
  | foreign => exact h.elim

omit [EmptyCollection F] in
theorem Unready.incomplete (h : Unready staged) : stagingIncomplete paths id ⟨.absent,.absent,staged⟩=.ok true := by
  cases staged with
  | absent => rfl
  | real owner mode c =>
    have hmar : c.restoreReady=.absent := h
    simp [stagingIncomplete,restoreReadyExists,realDirectoryExists,realFileExists,existsAs,hmar,bind,
      Except.bind]
  | link => exact h.elim
  | foreign => exact h.elim

def Vacant (id : String) (before : Disk F) : Prop :=
  before.journal=.absent ∧ before.slots id=⟨.absent,.absent,.absent⟩

omit [EmptyCollection F] in
theorem rollback_reserved (h : RestoresAt z id transaction) (hbef : Vacant id before)
    (hd : Reserved host.uid id transaction before d) :
    wp (rollbackIncompleteStaging host paths transaction.active)
      ⟨fun t => Reserved host.uid id transaction before t ∨ Undone id before t,
        fun done t => done=true ∧ Undone id before t,fun _ _ => True⟩ d := by
  obtain ⟨root,staged,hunr,rfl⟩ := hd
  have hrun : ∀ entries, (∀ entry ∈ entries, entry.source=.staged → entry.metadata.id=id) →
      (∃ entry ∈ entries, entry.source=.staged) →
      wp (rollbackIncompleteStaging host paths entries)
        ⟨fun t => Reserved host.uid id transaction before t ∨ Undone id before t,
          fun done t => done=true ∧ Undone id before t,fun _ _ => True⟩
        (stagedDisk before id (journalOf host.uid transaction) root staged) := by
    intro entries
    induction entries with
    | nil =>
      intro _ hsom
      obtain ⟨entry,hmem,-⟩ := hsom
      cases hmem
    | cons entry rest ih =>
      intro hids hsom
      apply (wp_ite _ _ _ _).2
      refine ⟨fun hoth => ih (fun other hmem => hids other (mem_cons_of_mem _ hmem)) ?_,fun hsou => ?_⟩
      · obtain ⟨one,hone,hsta⟩ := hsom
        rcases mem_cons.1 hone with rfl | hrest
        · exact absurd hsta hoth
        · exact ⟨one,hrest,hsta⟩
      · have hid:=hids entry mem_cons_self (not_not.1 hsou)
        rw [hid,wp_bind,wp_reads,stagedDisk_slots,hbef.2,hunr.incomplete]
        apply (wp_bind _ _ _ _).2
        apply wp_removeStage.mono
        · rintro t ⟨place,hpla,rfl⟩
          exact Or.inl ⟨root,place,hunr.removal place hpla,rfl⟩
        · rintro - t rfl
          apply (wp_bind _ _ _ _).2
          apply (wp_zoom _ _ _ _).2
          refine wp_of_ok rfl ?_ ((wp_pure true _ _).2 ⟨rfl,root,rfl⟩)
          intro place hpla
          rw [mem_singleton.1 hpla]
          exact Or.inr ⟨root,rfl⟩
        · exact fun _ _ _ => trivial
  obtain ⟨entry,hentry,hsou,-⟩ := h.staged
  exact hrun transaction.active (fun other hoth hsta => h.staged_id hoth hsta) ⟨entry,hentry,hsou⟩

omit [EmptyCollection F] in
theorem Complete.slot {uid : ℕ} {c : ComputerDirectory F} (hbef : Vacant id before) :
    (readyDisk uid id transaction before c).slots id=⟨.absent,.absent,.real uid 0o700 c⟩ := by
  rw [readyDisk,stagedDisk_slots,hbef.2]

omit [EmptyCollection F] in
/- Calls on containers do not touch the disk. -/
theorem runtime_keeps {m : Durable R String Unit} (d : Disk F) :
    Keeps (fun w : World F R => w.disk=d) (zoom World.runtimeLens m) :=
  keeps_zoom_of_frame fun _ _ h => h

variable {options : TransactionOptions R} {ready : Disk F}

theorem finish_placed {state : LoadedState} {committed : StateTransaction}
    (hw : Placed z host.uid paths transaction (journalOf host.uid { transaction with phase := .stateCommitted }) ready
      w.disk) :
    wp (finishTransaction host paths options state committed)
      ⟨fun t => Placed z host.uid paths transaction
            (journalOf host.uid { transaction with phase := .stateCommitted }) ready t.disk ∨
          Placed z host.uid paths transaction .absent ready t.disk,
        fun _ t => (Placed z host.uid paths transaction
            (journalOf host.uid { transaction with phase := .stateCommitted }) ready t.disk ∨
          Placed z host.uid paths transaction .absent ready t.disk) ∧
          (options.includeRuntime.getD true=true → Placed z host.uid paths transaction .absent ready t.disk),
        fun _ _ => True⟩ w := by
  obtain ⟨e,he,hdis⟩ := hw
  apply (wp_ite _ _ _ w).2
  constructor
  · intro hski
    have hexc : options.includeRuntime.getD true=false := by
      simp only [Bool.and_eq_true,Bool.not_eq_true'] at hski
      exact hski.1
    refine (wp_pure () _ w).2 ⟨Or.inl ⟨e,he,hdis⟩,fun htru => ?_⟩
    rw [hexc] at htru
    cases htru
  · intro _
    apply (wp_bind _ _ _ w).2
    apply (runtime_keeps w.disk w rfl).mono
    · intro t ht
      exact Or.inl ⟨e,he,ht.trans hdis⟩
    · intro _ t ht
      apply (wp_zoom _ _ _ t).2
      apply (wp_zoom _ _ _ _).2
      have hpla : Disk.journalLens.get (World.diskLens.get t) =
          journalOf host.uid { transaction with phase := .stateCommitted } := by
        show t.disk.journal=_
        rw [ht,hdis]
      rw [hpla]
      have hgon : Placed z host.uid paths transaction .absent ready
          (Disk.journalLens.set .absent (World.diskLens.get t)) := by
        refine ⟨e,he,?_⟩
        show ({ t.disk with journal := .absent } : Disk F)=_
        rw [ht,hdis]
      refine wp_of_ok rfl ?_ ⟨Or.inr hgon,fun _ => hgon⟩
      intro place hmem
      rw [mem_singleton.1 hmem]
      exact Or.inr hgon
    · exact fun _ _ _ => trivial

theorem commit_forward (h : RestoresAt z id transaction) (hw : Forward z host.uid paths id transaction ready w.disk) :
    wp (commitState z host ⟨paths,transaction.config,transaction.secrets⟩ transaction)
      ⟨fun t => Forward z host.uid paths id transaction ready t.disk ∨ Placed z host.uid paths transaction
          (journalOf host.uid { transaction with phase := .stateCommitted }) ready t.disk,
        fun _ t => Placed z host.uid paths transaction
          (journalOf host.uid { transaction with phase := .stateCommitted }) ready t.disk,
        fun _ _ => True⟩ w := by
  have hjou:=@realizeState_journal F R _ z host transaction ⟨paths,transaction.config,transaction.secrets⟩
    (journalOf host.uid transaction) w hw.journal
  have harr:=@realizeState_arriving F R _ z id transaction host paths h w hw.arriving
  have hkep:=((wp_bind _ _ _ w).1 (@commitState_keeps F R _ z host w.disk
    ⟨paths,transaction.config,transaction.secrets⟩ transaction w (.of_slots rfl))).everywhere (.of_slots rfl)
  apply (wp_bind _ _ _ w).2
  apply ((((realizeState_resumes h.valid w).and hjou).and harr).and hkep).mono
  · rintro t ⟨⟨⟨hrea,hsam⟩,hthe⟩,hkee⟩
    exact Or.inl ⟨hsam,hrea.trans hw.realized,hw.kept.trans (hkee id),hthe⟩
  · rintro - t ⟨⟨⟨hrea,hsam⟩,-⟩,-⟩
    rw [writeTransaction_valid (h.valid.phase .stateCommitted)]
    apply (wp_zoom _ _ _ t).2
    apply (wp_zoom _ _ _ _).2
    have hpla : Disk.journalLens.get (World.diskLens.get t)=journalOf host.uid transaction := hsam
    rw [hpla]
    have hpld : Placed z host.uid paths transaction
        (journalOf host.uid { transaction with phase := .stateCommitted }) ready
        (Disk.journalLens.set (journalOf host.uid { transaction with phase := .stateCommitted }) t.disk) :=
      ⟨t.disk,hw.realized.symm.trans hrea,rfl⟩
    refine wp_of_ok rfl ?_ hpld
    intro place hmem
    rw [mem_singleton.1 hmem]
    exact Or.inr hpld
  · exact fun _ _ _ => trivial

theorem recover_restoring (h : RestoresAt z id transaction) (hbef : Vacant id before)
    (hw : Restoring z host.uid paths id transaction good before w.disk) :
    wp (recoverPendingTransaction z b host paths options)
      ⟨fun t => Restoring z host.uid paths id transaction good before t.disk,
        fun _ t => options.includeRuntime.getD true=true →
          Settled z host.uid paths id transaction good before t.disk,
        fun _ _ => True⟩ w := by
  have hcom : ∀ {c : ComputerDirectory F}, Complete host.uid good c → ∃ owner mode c',
      (readyDisk host.uid id transaction before c).slots id=⟨.absent,.absent,.real owner mode c'⟩ ∧
        c'.restoreReady.isReal=true := by
    intro c hc
    refine ⟨_,_,c,Complete.slot hbef,?_⟩
    rw [hc.2]
    rfl
  have hfin : ∀ {c : ComputerDirectory F} {t : World F R}, Complete host.uid good c →
      Placed z host.uid paths transaction (journalOf host.uid { transaction with phase := .stateCommitted })
        (readyDisk host.uid id transaction before c) t.disk →
      wp (finishTransaction host paths options ⟨paths,transaction.config,transaction.secrets⟩
          { transaction with phase := .stateCommitted } >>= fun _ => pure true)
        ⟨fun u => Restoring z host.uid paths id transaction good before u.disk,
          fun _ u => options.includeRuntime.getD true=true →
            Settled z host.uid paths id transaction good before u.disk,fun _ _ => True⟩ t := by
    intro c t hc ht
    apply (wp_bind _ _ _ t).2
    apply (finish_placed ht).mono
    · rintro u (hplaced | hplaced)
      · exact Or.inr (Or.inr ⟨c,hc,Or.inr (Or.inl hplaced)⟩)
      · exact Or.inr (Or.inr ⟨c,hc,Or.inr (Or.inr hplaced)⟩)
    · rintro - u ⟨-,hplaced⟩
      exact (wp_pure true _ u).2 fun htru => Or.inr ⟨c,hc,hplaced htru⟩
    · exact fun _ _ _ => trivial
  have hnot : w.disk.journal=.absent → Settled z host.uid paths id transaction good before w.disk →
      Restoring z host.uid paths id transaction good before w.disk →
      wp (recoverPendingTransaction z b host paths options)
        ⟨fun t => Restoring z host.uid paths id transaction good before t.disk,
          fun _ t => options.includeRuntime.getD true=true →
            Settled z host.uid paths id transaction good before t.disk,fun _ _ => True⟩ w := by
    intro hjou hset hres
    apply (wp_bind _ _ _ w).2
    apply (wp_zoom _ _ _ w).2
    refine wp_of_ok (readPendingTransaction_absent hjou) (by simp) ?_
    exact (wp_pure false _ _).2 fun _ => hset
  rcases hw with hundone | hreserved | ⟨c,hc,hfor | hcommitted | hplaced⟩
  · apply hnot
    · obtain ⟨root,hdis⟩ := hundone
      rw [hdis]
      rfl
    · exact Or.inl hundone
    · exact Or.inl hundone
  · have hjou : w.disk.journal=journalOf host.uid transaction := by
      obtain ⟨root,staged,-,hdis⟩ := hreserved
      rw [hdis]
      rfl
    apply (wp_bind _ _ _ w).2
    apply (wp_zoom _ _ _ w).2
    refine wp_of_ok (readPendingTransaction_of_journal h.valid hjou) (by simp) ?_
    apply (wp_bind _ _ _ _).2
    apply (wp_zoom _ _ _ _).2
    apply (wp_ite _ _ _ _).2
    refine ⟨fun _ => ?_,fun hpha => absurd h.phase hpha⟩
    apply (rollback_reserved h hbef hreserved).mono
    · rintro t (hreserved | hundone)
      · exact Or.inr (Or.inl hreserved)
      · exact Or.inl hundone
    · rintro done t ⟨rfl,hundone⟩
      exact (wp_pure true _ _).2 fun _ => Or.inl hundone
    · exact fun _ _ _ => trivial
  · apply (wp_bind _ _ _ w).2
    apply (wp_zoom _ _ _ w).2
    refine wp_of_ok (readPendingTransaction_of_journal h.valid hfor.journal) (by simp) ?_
    apply (wp_bind _ _ _ _).2
    apply (wp_zoom _ _ _ _).2
    apply (wp_ite _ _ _ _).2
    refine ⟨fun _ => ?_,fun hpha => absurd h.phase hpha⟩
    apply (rollbackIncompleteStaging_complete (hfor.complete h (hcom hc))).mono
    · exact fun _ hfal => hfal.elim
    · rintro _ d ⟨rfl,rfl⟩
      apply (wp_bind _ _ _ _).2
      apply (wp_bind _ _ _ _).2
      apply (runtime_keeps w.disk _ rfl).mono
      · intro t ht
        exact Or.inr (Or.inr ⟨c,hc,Or.inl (ht ▸ hfor)⟩)
      · intro _ t ht
        apply (wp_bind _ _ _ t).2
        have hwhe : (decide (transaction.phase=.prepared))=true := by simp [h.phase]
        rw [hwhe]
        have hthe : Forward z host.uid paths id transaction (readyDisk host.uid id transaction before c) t.disk :=
          ht ▸ hfor
        apply (commit_forward h hthe).mono
        · rintro u (hfor | hplaced)
          · exact Or.inr (Or.inr ⟨c,hc,Or.inl hfor⟩)
          · exact Or.inr (Or.inr ⟨c,hc,Or.inr (Or.inl hplaced)⟩)
        · exact fun _ u hplaced => (wp_bind _ _ _ u).1 (hfin hc hplaced)
        · exact fun _ _ _ => trivial
      · exact fun _ _ _ => trivial
    · exact fun _ _ hfal => hfal.elim
  · have hjou : w.disk.journal=journalOf host.uid { transaction with phase := .stateCommitted } := by
      obtain ⟨e,-,hdis⟩ := hcommitted
      rw [hdis]
    apply (wp_bind _ _ _ w).2
    apply (wp_zoom _ _ _ w).2
    refine wp_of_ok (readPendingTransaction_of_journal (h.valid.phase .stateCommitted) hjou) (by simp) ?_
    apply (wp_bind _ _ _ _).2
    apply (wp_zoom _ _ _ _).2
    apply (wp_pure false _ _).2
    apply (wp_bind _ _ _ _).2
    apply (wp_bind _ _ _ _).2
    apply (runtime_keeps w.disk _ rfl).mono
    · intro t ht
      exact Or.inr (Or.inr ⟨c,hc,Or.inr (Or.inl (ht ▸ hcommitted))⟩)
    · intro _ t ht
      apply (wp_bind _ _ _ t).2
      apply (wp_pure () _ t).2
      exact (wp_bind _ _ _ t).1 (hfin hc (ht ▸ hcommitted))
    · exact fun _ _ _ => trivial
  · apply hnot
    · obtain ⟨e,-,hdis⟩ := hplaced
      rw [hdis]
    · exact Or.inr ⟨c,hc,hplaced⟩
    · exact Or.inr (Or.inr ⟨c,hc,Or.inr (Or.inr hplaced)⟩)

end Steps

end Qubicl.Cli
