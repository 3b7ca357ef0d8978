import Qubicl.Cli.Restore.Staging
import Qubicl.Foundation.Checked

/-!
# What a restore leaves

Runs of `restoreBackup`, whole or cut, and of recovery after them.
-/

namespace Qubicl.Cli
open Foundation Core Durable List Option

variable {A P F R : Type} [EmptyCollection F]

section Computer
variable {z : Formats} {fresh : FreshValues} {name : String} {source computer : ComputerConfig}
  {state restored : LoadedState} {start : Bool} {transaction : StateTransaction}

theorem parseComputer_ok {x y : ComputerConfig} (h : parseComputer z x=.ok y) :
    (computerConfigSchema z).parse x=some y := by
  unfold parseComputer at h
  split at h
  next parsed hpar => cases h; exact hpar
  next => cases h

structure Allocated (z : Formats) (fresh : FreshValues) (name : String) (state : LoadedState)
    (computer : ComputerConfig) (restored : LoadedState) : Prop where
  id : computer.id=fresh.computerId
  name : computer.name=name
  computers : restored.config.computers=state.config.computers++[computer]
  secrets : restored.secrets.computers=recordSet fresh.computerId fresh.secret state.secrets.computers

theorem addConfiguredComputer_allocated {defaults : ComputerDefaults}
    (h : addConfiguredComputer z fresh name defaults state=.ok (computer,restored)) :
    Allocated z fresh name state computer restored := by
  unfold addConfiguredComputer at h
  split at h
  · cases h
  split at h
  · cases h
  obtain ⟨runtimeName,-,hres⟩ := bind_ok.1 h
  obtain ⟨parsed,hpar,hret⟩ := bind_ok.1 hres
  cases hret
  have hsam:=computerConfigSchema_sameFields z (parseComputer_ok hpar)
  have hid : computer.id=fresh.computerId := hsam.id
  refine ⟨hid,hsam.name,rfl,?_⟩
  show recordSet computer.id _ _=_
  rw [hid]

theorem createRestoredComputerConfig_allocated
    (h : createRestoredComputerConfig z fresh name source state=.ok (computer,restored)) :
    Allocated z fresh name state computer restored := by
  obtain ⟨saved,-,hres⟩ := bind_ok.1 h
  obtain ⟨⟨allocated,added⟩,hadd,hres⟩ := bind_ok.1 hres
  obtain ⟨parsed,hpar,hret⟩ := bind_ok.1 hres
  have hall:=addConfiguredComputer_allocated hadd
  have hsam:=computerConfigSchema_sameFields z (parseComputer_ok hpar)
  cases hret
  exact ⟨hsam.id.trans hall.id,hsam.name.trans hall.name,rfl,hall.secrets⟩

/-- The transaction brings in the computer, with an ID that was not there, and its credentials. -/
structure BringsIn (z : Formats) (fresh : FreshValues) (name : String) (state : LoadedState)
    (transaction : StateTransaction) : Prop where
  restores : RestoresAt z fresh.computerId transaction
  computer : ∃ computer ∈ transaction.config.computers, computer.id=fresh.computerId ∧ computer.name=name
  new : fresh.computerId ∉ state.config.computers.map ComputerConfig.id
  credentials : ∃ secret, (fresh.computerId,secret) ∈ transaction.secrets.computers.entries ∧
    secret.token=fresh.secret.token ∧ secret.internalKey=fresh.secret.internalKey

theorem createRestoreTransaction_bringsIn (hall : Allocated z fresh name state computer restored)
    (h : createRestoreTransaction z fresh computer.id start restored=.ok transaction) :
    BringsIn z fresh name state transaction := by
  unfold createRestoreTransaction at h
  split at h
  next parsed hpad =>
    cases h
    have hval:=Schema.normal_of_parse hpad
    obtain ⟨-,config,secrets,active,trash,hcon,hsec,hact,htra,-,rfl⟩ :=
      stateTransactionSchema_eq_some.1 hpad
    obtain ⟨-,gateway,defaults,computers,-,-,hcom,-,rfl⟩ := configSchema_eq_some.1 hcon
    obtain ⟨-,records,hrec,rfl⟩ := secretsSchema_eq_some.1 hsec
    have hmem : computer ∈ restored.config.computers := by
      rw [hall.computers]
      exact mem_append_right _ mem_cons_self
    have hens:=Schema.parse_array_forall₂.1 hact
    have hids : active.map (fun entry => entry.metadata.id) =
        state.config.computers.map ComputerConfig.id++[fresh.computerId] := by
      have hsam : List.Forall₂ (fun x y => x=y) (restored.config.computers.map ComputerConfig.id)
          (active.map fun entry => entry.metadata.id) := by
        apply List.forall₂_map_right_iff.2
        apply List.forall₂_map_left_iff.2
        apply (List.forall₂_map_left_iff.1 hens).imp
        intro metadata entry hent
        obtain ⟨filled,hfil,rfl⟩ := map_eq_some_iff.1 hent
        exact (computerConfigSchema_sameFields z hfil).id.symm
      rw [List.forall₂_eq_eq_eq] at hsam
      rw [← hsam,hall.computers,map_append,map_singleton,hall.id]
    refine ⟨⟨hval,rfl,?_,?_⟩,?_,?_,?_⟩
    · cases Schema.parse_array_forall₂.1 htra
      rfl
    · obtain ⟨entry,hent,hpar⟩ := forall₂_mem_left hens (mem_map.2 ⟨computer,hmem,rfl⟩)
      obtain ⟨filled,hfil,rfl⟩ := map_eq_some_iff.1 hpar
      exact ⟨_,hent,if_pos rfl,(computerConfigSchema_sameFields z hfil).id.trans hall.id⟩
    · obtain ⟨filled,hfil,hpar⟩ := forall₂_mem_left (Schema.parse_array_forall₂.1 hcom) hmem
      have hsam:=computerConfigSchema_sameFields z hpar
      exact ⟨filled,hfil,hsam.id.trans hall.id,hsam.name.trans hall.name⟩
    · have hnod:=(ValidTransaction.ids hval).1
      dsimp only at hnod
      rw [hids] at hnod
      intro hold
      exact (nodup_append.1 hnod).2.2 _ hold _ mem_cons_self rfl
    · rw [Schema.record,ite_none_right_eq_some] at hrec
      have hkep : (fresh.computerId,fresh.secret) ∈ restored.secrets.computers.entries := by
        rw [hall.secrets]
        exact mem_mapSet_self _ _ _
      obtain ⟨filled,hfil,hmem⟩ := Record.mem_traverse hrec.2 hkep
      obtain ⟨-,hcli⟩ := ite_none_right_eq_some.1 hfil
      obtain ⟨clients,-,rfl⟩ := map_eq_some_iff.1 hcli
      exact ⟨_,hmem,rfl,rfl⟩
  next => cases h

end Computer

section Places
variable {z : Formats} {uid : ℕ} {paths : StatePaths} {id : String} {transaction : StateTransaction}
  {before d : Disk F} {c : ComputerDirectory F}

theorem activeTarget_ready {metadata : ComputerConfig} {t : Slot F}
    (h : activeTarget uid .staged metadata ⟨.absent,.absent,.real uid 0o700 c⟩=some t) :
    ∃ saved home, savedHome uid c.home=some home ∧
      t=⟨.real uid 0o700 { c with metadata := saved, home := home, restoreReady := .absent },.absent,.absent⟩ := by
  simp only [activeTarget,Place.found] at h
  obtain ⟨-,h⟩ := ite_none_right_eq_some.1 h
  obtain ⟨s,hsav,hmar⟩ := bind_eq_some_iff.1 h
  obtain ⟨place,hpla,rfl⟩ := savedActive_eq_some.1 hsav
  obtain ⟨content,written,hsec,hcon,rfl⟩ := savedDirectory_eq_some.1 hpla
  have hsam : content=c := by simpa [secured] using hsec.symm
  subst hsam
  obtain ⟨home,hhom,-,rfl⟩ := savedContent_eq_some.1 hcon
  obtain ⟨active,hact,rfl⟩ := map_eq_some_iff.1 hmar
  simp only [insideTarget,map_eq_some_iff] at hact
  obtain ⟨marked,⟨marker,hrem,rfl⟩,rfl⟩ := hact
  have habs : marker=.absent := by
    unfold removedPlace at hrem
    split at hrem
    next => cases hrem
    next => exact (Option.some.inj hrem).symm
  subst habs
  exact ⟨_,home,hhom,rfl⟩

theorem Placed.slot {journal : Place TransactionDocument} (h : RestoresAt z id transaction) (hvac : Vacant id before)
    (hd : Placed z uid paths transaction journal (readyDisk uid id transaction before c) d) :
    ∃ saved home, savedHome uid c.home=some home ∧ d.slots id =
      ⟨.real uid 0o700 { c with metadata := saved, home := home, restoreReady := .absent },.absent,.absent⟩ := by
  obtain ⟨e,he,rfl⟩ := hd
  obtain ⟨hact,-,-⟩ := h.valid.ids
  simp only [realizedDisk,bind_eq_some_iff] at he
  obtain ⟨d₁,hroo,d₂,hens,d₃,hfil,d₄,heq,htra⟩ := he
  have h₁ : d₁=readyDisk uid id transaction before c := by
    unfold rootsTarget at hroo
    split at hroo
    · exact (Option.some.inj hroo).symm
    · simp at hroo
  have h₄ : d₄=d₃ := (Option.some.inj heq).symm
  subst h₁ h₄
  obtain ⟨files,-,hd₃⟩ := map_eq_some_iff.1 hfil
  obtain ⟨-,hent,-⟩ := (activeEntriesTarget_eq_some hact).1 hens
  have hslo : e.slots=d₂.slots := by
    rw [h.trash] at htra
    obtain ⟨slots,hslo,rfl⟩ := map_eq_some_iff.1 htra
    rw [← hd₃] at hslo
    exact (Option.some.inj hslo).symm
  obtain ⟨entry,hmem,hsou,hid⟩ := h.staged
  have htar:=hent entry hmem
  rw [hsou,hid,Complete.slot hvac] at htar
  obtain ⟨saved,home,hhom,hslt⟩ := activeTarget_ready htar
  refine ⟨saved,home,hhom,?_⟩
  show e.slots id=_
  rw [hslo,hslt]

end Places

/- The tree of the archive without its host keys, in a home that was at most secured since. -/
def HomeRestored (tools : ArchiveTools A P F) (uid : ℕ) (verified : VerifiedBackup A)
    (passphrase : Except String String) (home : Place (HomeDirectory F)) : Prop :=
  ∃ archive plan h, Inspected tools verified passphrase archive plan ∧ home=.real uid 0o700 h ∧
    HomeKept uid (restoredTree tools archive plan) h

/-- Nothing is active at the ID, or a whole home is. -/
def NeverPartial (tools : ArchiveTools A P F) (uid : ℕ) (verified : VerifiedBackup A)
    (passphrase : Except String String) (id : String) (d : Disk F) : Prop :=
  (d.slots id).active=.absent ∨
    ∃ c, (d.slots id).active=.real uid 0o700 c ∧ HomeRestored tools uid verified passphrase c.home

/-- The new computer is there, with its credentials and with the home of the archive. -/
structure Restored (tools : ArchiveTools A P F) (uid : ℕ) (verified : VerifiedBackup A)
    (passphrase : Except String String) (fresh : FreshValues) (name : String) (state : LoadedState) (d : Disk F) :
    Prop where
  journal : d.journal=.absent
  new : fresh.computerId ∉ state.config.computers.map ComputerConfig.id
  computer : ∃ config, d.files.config=.real uid 0o600 (.current config) ∧
    ∃ computer ∈ config.computers, computer.id=fresh.computerId ∧ computer.name=name
  credentials : ∃ secrets, d.files.secrets=.real uid 0o600 secrets ∧
    ∃ secret, (fresh.computerId,secret) ∈ secrets.computers.entries ∧
      secret.token=fresh.secret.token ∧ secret.internalKey=fresh.secret.internalKey
  home : ∃ archive plan user, Inspected tools verified passphrase archive plan ∧
    secured uid (restoredTree tools archive plan).qubicl=some user ∧
    ∃ c, d.slots fresh.computerId=⟨.real uid 0o700 c,.absent,.absent⟩ ∧ c.restoreReady=.absent ∧
      c.home=.real uid 0o700 { restoredTree tools archive plan with qubicl := .real uid 0o700 user }

section Homes
variable {tools : ArchiveTools A P F} {uid : ℕ} {verified : VerifiedBackup A} {passphrase : Except String String}
  {home secure : Place (HomeDirectory F)}

theorem HoldsTree.saved (h : HoldsTree tools uid verified passphrase home) (hsav : savedHome uid home=some secure) :
    ∃ archive plan user, Inspected tools verified passphrase archive plan ∧
      secured uid (restoredTree tools archive plan).qubicl=some user ∧
      secure=.real uid 0o700 { restoredTree tools archive plan with qubicl := .real uid 0o700 user } := by
  obtain ⟨archive,plan,hind,rfl⟩ := h
  obtain ⟨place,hpla,hins⟩ := bind_eq_some_iff.1 hsav
  have hsam : place=.real uid 0o700 (restoredTree tools archive plan) := by
    simpa [securedDirectory,secured] using hpla.symm
  subst hsam
  obtain ⟨t,ht,rfl⟩ := map_eq_some_iff.1 hins
  obtain ⟨qubicl,hqub,rfl⟩ := map_eq_some_iff.1 ht
  obtain ⟨user,huse,rfl⟩ := map_eq_some_iff.1 hqub
  exact ⟨archive,plan,user,hind,huse,rfl⟩

theorem secures_of_secured {α : Type} [EmptyCollection α] {place : Place α} {content : α}
    (h : secured uid place=some content) : Secures uid Eq place (.real uid 0o700 content) := by
  unfold secured at h
  split at h
  · cases h
    exact .created _ rfl
  · obtain ⟨rfl,heq⟩ := ite_none_right_eq_some.1 h
    cases heq
    exact .real _ _ _ _ _ (.inr rfl) rfl
  · cases h

theorem HoldsTree.restored_saved (h : HoldsTree tools uid verified passphrase home)
    (hsav : savedHome uid home=some secure) : HomeRestored tools uid verified passphrase secure := by
  obtain ⟨archive,plan,user,hins,huse,rfl⟩ := h.saved hsav
  exact ⟨archive,plan,_,hins,rfl,rfl,secures_of_secured huse⟩

theorem HoldsTree.restored_kept (h : HoldsTree tools uid verified passphrase home)
    (hkep : Secures uid (HomeKept uid) home secure) : HomeRestored tools uid verified passphrase secure := by
  obtain ⟨archive,plan,hins,rfl⟩ := h
  cases hkep with
  | same => exact ⟨archive,plan,_,hins,rfl,rfl,.same _⟩
  | real _ _ mode _ t hmod ht =>
    have hmod' : mode=0o700 := hmod.elim id id
    rw [hmod']
    exact ⟨archive,plan,t,hins,rfl,ht⟩

end Homes

variable {t w : World F R}

section Runs
variable {z : Formats} {b : Build} {tools : ArchiveTools A P F} {host : Host F R} {paths : StatePaths}
  {failures : RestoreFailures} {fresh : FreshValues} {options : TransactionOptions R} {verified : VerifiedBackup A}
  {passphrase : Except String String} {name id : String} {start : Bool} {state : LoadedState}
  {transaction : StateTransaction} {before d : Disk F}

theorem Restoring.neverPartial (h : RestoresAt z id transaction) (hvac : Vacant id before)
    (hd : Restoring z host.uid paths id transaction (HoldsTree tools host.uid verified passphrase) before d) :
    NeverPartial tools host.uid verified passphrase id d := by
  have hsta : ∀ {journal root staged}, ((stagedDisk before id journal root staged).slots id).active=.absent := by
    intro journal root staged
    rw [stagedDisk_slots,hvac.2]
  have hpla : ∀ {journal c}, Complete host.uid (HoldsTree tools host.uid verified passphrase) c →
      Placed z host.uid paths transaction journal (readyDisk host.uid id transaction before c) d →
      NeverPartial tools host.uid verified passphrase id d := by
    intro journal c hc hd
    obtain ⟨saved,home,hhom,hslo⟩ := hd.slot h hvac
    refine Or.inr ⟨{ c with metadata := saved, home := home, restoreReady := .absent },?_,hc.1.restored_saved hhom⟩
    rw [hslo]
  rcases hd with ⟨root,rfl⟩ | ⟨root,staged,-,rfl⟩ | ⟨c,hc,hfor | hcommitted | hdone⟩
  · exact Or.inl hsta
  · exact Or.inl hsta
  · have hkep:=hfor.kept
    rw [Complete.slot hvac] at hkep
    rcases hkep.staged with hsam | ⟨-,-,-,-,⟨-,hsec,-⟩ | ⟨habs,-⟩⟩
    · refine Or.inl (hfor.arriving.2.resolve_right fun habs => ?_)
      rw [habs] at hsam
      cases hsam
    · right
      generalize (d.slots id).active=active at hsec
      cases hsec with
      | same => exact ⟨c,rfl,hc.1.restored_kept (.same _)⟩
      | real _ _ mode _ c' hmod hc' =>
        have hmod' : mode=0o700 := hmod.elim (fun h => h) fun h => h
        rw [hmod']
        exact ⟨c',rfl,hc.1.restored_kept hc'.2⟩
    · exact Or.inl habs
  · exact hpla hc hcommitted
  · exact hpla hc hdone

omit [EmptyCollection F] in
theorem stagedDisk_vacant (hvac : Vacant id before) (journal : Place TransactionDocument) (root : Bool) :
    stagedDisk before id journal root .absent = { before with journal := journal, restoreStaging := root } := by
  have hsta : (Disk.stagedLens id).get before=.absent := by
    show (before.slots id).staged=.absent
    rw [hvac.2]
  rw [stagedDisk,← hsta,(Disk.stagedLens id).set_get before]

theorem Settled.restored (h : BringsIn z fresh name state transaction) (hvac : Vacant fresh.computerId before)
    (hd : Settled z host.uid paths fresh.computerId transaction (HoldsTree tools host.uid verified passphrase) before d) :
    (∃ root, d = { before with restoreStaging := root }) ∨
      Restored tools host.uid verified passphrase fresh name state d := by
  rcases hd with ⟨root,rfl⟩ | ⟨c,hc,hpla⟩
  · refine Or.inl ⟨root,?_⟩
    rw [stagedDisk_vacant hvac,← hvac.1]
  · right
    obtain ⟨saved,home,hhom,hslo⟩ := hpla.slot h.restores hvac
    obtain ⟨archive,plan,user,hins,huse,rfl⟩ := hc.1.saved hhom
    obtain ⟨e,he,rfl⟩ := hpla
    have hind:=realizedDisk_installed h.restores.valid he
    exact {
      journal := rfl
      new := h.new
      computer := ⟨_,hind.config,h.computer⟩
      credentials := ⟨_,hind.secrets,h.credentials⟩
      home := ⟨archive,plan,user,hins,huse,_,hslo,rfl,rfl⟩ }

/-- One attempt at recovery, wherever it ends or is cut. -/
def RecoveryAttempt (z : Formats) (b : Build) (host : Host F R) (paths : StatePaths) (w t : World F R) : Prop :=
  ∃ options, (recoverPendingTransaction z b host paths options).Visits w t

theorem restoring_attempts {good : Place (HomeDirectory F) → Prop} (h : RestoresAt z id transaction)
    (hvac : Vacant id before) {u : World F R} (ht : Restoring z host.uid paths id transaction good before t.disk)
    (hats : Relation.ReflTransGen (RecoveryAttempt z b host paths) t u) :
    Restoring z host.uid paths id transaction good before u.disk := by
  induction hats with
  | refl => exact ht
  | tail _ hatt ih =>
    obtain ⟨options,rfl | hcut⟩ := hatt
    · exact ih
    · exact (recover_restoring h hvac ih).cutAt hcut

theorem recover_nothing (hjou : w.disk.journal=.absent) :
    wp (recoverPendingTransaction z b host paths options) ⟨fun t => t=w,fun _ t => t=w,fun _ _ => True⟩ w := by
  apply (wp_bind _ _ _ w).2
  apply (wp_zoom _ _ _ w).2
  refine wp_of_ok (readPendingTransaction_absent hjou) (by simp) ?_
  exact (wp_pure false _ _).2 (World.diskLens.set_get w)

theorem nothing_attempts (hjou : w.disk.journal=.absent)
    (hats : Relation.ReflTransGen (RecoveryAttempt z b host paths) w t) : t=w := by
  induction hats with
  | refl => rfl
  | tail _ hatt ih =>
    subst ih
    obtain ⟨options,rfl | hcut⟩ := hatt
    · rfl
    · exact (recover_nothing hjou).cutAt hcut

theorem wp_restoreBackup (hvac : Vacant fresh.computerId w.disk) (hsta : ∀ failure ∈ failures.stage, failure.steps=0) :
    wp (restoreBackup z b tools host failures fresh options verified passphrase name start state)
      ⟨fun t => Torn host (HoldsTree tools host.uid verified passphrase) fresh.computerId t.disk ∨
        ∃ transaction, BringsIn z fresh name state transaction ∧ Restoring z host.uid state.paths fresh.computerId
          transaction (HoldsTree tools host.uid verified passphrase) w.disk t.disk,
        fun _ _ => True,fun _ _ => True⟩ w := by
  apply (wp_bind _ _ _ w).2
  cases hcre : createRestoredComputerConfig z fresh name verified.source state with
  | error e => exact (wp_ofExcept_error e _ w).2 trivial
  | ok created =>
    obtain ⟨computer,restored⟩ := created
    apply (wp_ofExcept_ok _ _ w).2
    apply (wp_bind _ _ _ w).2
    cases htra : createRestoreTransaction z fresh computer.id start restored with
    | error e => exact (wp_ofExcept_error e _ w).2 trivial
    | ok transaction =>
      have hall:=createRestoredComputerConfig_allocated hcre
      have hbri:=createRestoreTransaction_bringsIn hall htra
      have hres : { w.disk with journal := journalOf host.uid transaction } =
          stagedDisk w.disk fresh.computerId (journalOf host.uid transaction) w.disk.restoreStaging .absent :=
        (stagedDisk_vacant hvac _ _).symm
      apply (wp_ofExcept_ok _ _ w).2
      apply (wp_bind _ _ _ w).2
      apply (prepareStateTransaction_wp hbri.restores.valid w).mono
      · intro t ht
        refine Or.inr ⟨transaction,hbri,Or.inr (Or.inl ⟨w.disk.restoreStaging,.absent,trivial,?_⟩)⟩
        rw [ht hvac.1,hres]
      · rintro _ t ⟨-,ht⟩
        apply (wp_bind _ _ _ t).2
        apply (wp_zoom _ _ _ t).2
        have hstt : World.diskLens.get t=stagedDisk w.disk fresh.computerId (journalOf host.uid transaction)
            w.disk.restoreStaging .absent := ht.trans hres
        rw [hstt,hall.id]
        apply (wp_stageBackup (z := z) hvac hsta).mono
        · rintro d (hreg | htorn)
          · exact Or.inr ⟨transaction,hbri,hreg⟩
          · exact Or.inl htorn
        · rintro _ d ⟨c,hc,rfl⟩
          apply (wp_bind _ _ _ _).2
          have hrea : Restoring z host.uid state.paths fresh.computerId transaction
              (HoldsTree tools host.uid verified passphrase) w.disk
              (readyDisk host.uid fresh.computerId transaction w.disk c) :=
            Or.inr (Or.inr ⟨c,hc,Or.inl (forward_ready hvac c)⟩)
          apply (recover_restoring hbri.restores hvac hrea).mono
          · exact fun u hu => Or.inr ⟨transaction,hbri,hu⟩
          · exact fun _ _ _ => (wp_pure _ _ _).2 trivial
          · exact fun _ _ _ => trivial
        · exact fun _ _ _ => trivial
      · exact fun _ _ _ => trivial

end Runs

/-- A restore that is cut or fails anywhere, and attempts at recovery that are cut or fail anywhere: no partial home is
ever active, and once one of the attempts completes the new computer is there as a whole, or nothing is. -/
theorem restore_all_or_nothing (z : Formats) (b : Build) (tools : ArchiveTools A P F) (host : Host F R)
    (failures : RestoreFailures) (fresh : FreshValues) (options : TransactionOptions R) (verified : VerifiedBackup A)
    (passphrase : Except String String) (name : String) (start : Bool) (state : LoadedState) {w t u : World F R}
    (hvacant : Vacant fresh.computerId w.disk)
    (hstage : ∀ failure ∈ failures.stage, failure.steps=0)
    (hrun : (restoreBackup z b tools host failures fresh options verified passphrase name start state).Visits w t)
    (htorn : ¬ Torn host (HoldsTree tools host.uid verified passphrase) fresh.computerId t.disk)
    (hattempts : Relation.ReflTransGen (RecoveryAttempt z b host state.paths) t u) :
    NeverPartial tools host.uid verified passphrase fresh.computerId u.disk ∧
      ∀ (options : TransactionOptions R) (done : Bool), options.includeRuntime.getD true=true →
        (recoverPendingTransaction z b host state.paths options).result u=.ok done →
        let d:=((recoverPendingTransaction z b host state.paths options).final u).disk
        (∃ root, d = { w.disk with restoreStaging := root }) ∨
          Restored tools host.uid verified passphrase fresh name state d := by
  rcases hrun with rfl | hcut
  · have hsam:=nothing_attempts hvacant.1 hattempts
    subst hsam
    refine ⟨Or.inl (by rw [hvacant.2]),?_⟩
    intro options done _ hres
    left
    refine ⟨u.disk.restoreStaging,?_⟩
    rw [(recover_nothing hvacant.1).returned hres]
  · obtain ⟨transaction,hbri,ht⟩ := ((wp_restoreBackup hvacant hstage).cutAt hcut).resolve_left htorn
    have hu:=restoring_attempts hbri.restores hvacant ht hattempts
    refine ⟨hu.neverPartial hbri.restores hvacant,?_⟩
    intro options done hinc hres
    exact ((recover_restoring hbri.restores hvacant hu).returned hres hinc).restored hbri hvacant

inductive ExampleFiles
  | mk (names : List String) (work : Place (RestoreWork Unit ExampleFiles))

namespace ExampleFiles

def names : ExampleFiles → List String
  | mk names _ => names

instance : EmptyCollection ExampleFiles := ⟨mk [] .absent⟩

def workLens : Lens ExampleFiles (Place (RestoreWork Unit ExampleFiles)) where
  get | mk _ work => work
  set work | mk names _ => mk names work
  get_set _ | mk _ _ => rfl
  set_get | mk _ _ => rfl
  set_set _ _ | mk _ _ => rfl

end ExampleFiles

def exampleTree : HomeDirectory ExampleFiles := ⟨.real 1000 0o700 (.mk ["notes.txt"] .absent),∅⟩

def exampleArchiveTools : ArchiveTools Unit Unit ExampleFiles where
  sha256 _ := exampleDigest
  chunks _ := []
  decrypt archive _ := .ok archive
  inspect _ := .ok ()
  tree _ _ := exampleTree
  extract _ _ := write fun _ => exampleTree
  extract_tree _ _ _ _ := rfl
  hostKeys _ := []
  work := ExampleFiles.workLens
  work_empty := rfl
  remnants _ := []

def exampleRestoreHost : Host ExampleFiles Unit where
  uid := 1000
  remnants c := [{ c with home := .real 1000 0o700 ∅ }]
  remnants_ready := by simp
  renderRuntime _ := pure ()
  digest _ := ⟨"",0⟩
  stamp := ⟨exampleDate,exampleId⟩

def exampleFresh : FreshValues where
  computerId := "8d3c1d1e-5f0a-4b7e-9a57-0c8d1f6b2a11"
  computerCreatedAt := exampleDate
  secret := exampleSecret
  transactionId := exampleId
  transactionCreatedAt := exampleDate
  workId := exampleId

def exampleVerified : VerifiedBackup Unit := ⟨exampleComputer,exampleDigest,false,()⟩

def exampleState : LoadedState where
  paths := ⟨"/home/user/.qubicl"⟩
  config := { exampleConfig 5 with computers := [] }
  secrets := ⟨5,⟨[],by decide⟩,none⟩

def exampleRestore (failures : RestoreFailures) : Durable (World ExampleFiles Unit) String ComputerConfig :=
  restoreBackup exampleFormats exampleBuild exampleArchiveTools exampleRestoreHost failures exampleFresh
    ⟨some true,exampleRuntime⟩ exampleVerified (.ok "") "copy" false exampleState

def exampleRestoreRecovery : Durable (World ExampleFiles Unit) String Bool :=
  recoverPendingTransaction exampleFormats exampleBuild exampleRestoreHost exampleState.paths
    ⟨some true,exampleRuntime⟩

def exampleBefore : World ExampleFiles Unit where
  disk := {
    journal := .absent
    files := ⟨.absent,.absent⟩
    computers := .real 1000 0o700 ()
    trash := .real 1000 0o700 ()
    restoreStaging := false
    slots _ := ⟨.absent,.absent,.absent⟩
    backups := .absent }
  runtime := ()

def exampleTorn : World ExampleFiles Unit :=
  (exampleRestore ⟨none,none,some ⟨7,"EIO: i/o error, fsync"⟩⟩ exampleBefore).trace.getD 10 exampleBefore

def activeNames (d : Disk ExampleFiles) (id : String) : Option (List String) :=
  (d.slots id).active.content?.bind fun c => c.home.content?.bind fun home => home.qubicl.content?.map ExampleFiles.names

theorem activeNames_restored {home : HomeDirectory ExampleFiles} (h : HomeKept 1000 exampleTree home) :
    home.qubicl.content?.map ExampleFiles.names=some ["notes.txt"] := by
  obtain ⟨-,hqub⟩ := h
  generalize home.qubicl=user at hqub
  cases hqub with
  | same => rfl
  | real _ _ _ _ t _ ht => rw [← ht]; rfl

theorem neverPartial_names {d : Disk ExampleFiles} {id : String}
    (h : NeverPartial exampleArchiveTools 1000 exampleVerified (.ok "") id d) :
    activeNames d id=none ∨ activeNames d id=some ["notes.txt"] := by
  rcases h with habs | ⟨c,hact,archive,plan,home,hins,hhom,hkep⟩
  · left
    rw [activeNames,habs]
    rfl
  · right
    rw [activeNames,hact]
    show c.home.content?.bind _=_
    rw [hhom]
    exact activeNames_restored hkep

theorem example_torn : 10<(exampleRestore ⟨none,none,some ⟨7,"EIO: i/o error, fsync"⟩⟩ exampleBefore).trace.length ∧
    (exampleRestoreRecovery.result exampleTorn).toOption=some true ∧
    activeNames (exampleRestoreRecovery.final exampleTorn).disk exampleFresh.computerId=some [] := by
  decide +kernel

/-- Where the clean-up of a tree with its marker is cut, recovery activates what is left of the home. -/
theorem torn_tree_activated : Vacant exampleFresh.computerId exampleBefore.disk ∧
    (exampleRestore ⟨none,none,some ⟨7,"EIO: i/o error, fsync"⟩⟩).Visits exampleBefore exampleTorn ∧
    (exampleRestoreRecovery.result exampleTorn).toOption=some true ∧
    ¬ NeverPartial exampleArchiveTools 1000 exampleVerified (.ok "") exampleFresh.computerId
      (exampleRestoreRecovery.final exampleTorn).disk := by
  obtain ⟨hlen,hres,hnam⟩ := example_torn
  refine ⟨⟨rfl,rfl⟩,Or.inr ?_,hres,?_⟩
  · show exampleTorn ∈ _
    rw [exampleTorn,getD_eq_getElem?_getD,getElem?_eq_getElem hlen]
    exact getElem_mem hlen
  · intro h
    rcases neverPartial_names h with hnon | hsome
    · rw [hnam] at hnon
      cases hnon
    · rw [hnam] at hsome
      cases hsome

def exampleSwiftHost : Host ExampleFiles Unit :=
  { exampleRestoreHost with remnants := fun _ => [], remnants_ready := by simp }

theorem restore_all_or_nothing_example :
    let w:=(restoreBackup exampleFormats exampleBuild exampleArchiveTools exampleSwiftHost
      ⟨none,none,some ⟨7,"EIO: i/o error, fsync"⟩⟩ exampleFresh ⟨some true,exampleRuntime⟩ exampleVerified (.ok "")
      "copy" false exampleState).final exampleBefore
    NeverPartial exampleArchiveTools 1000 exampleVerified (.ok "") exampleFresh.computerId w.disk ∧
      ∀ (options : TransactionOptions Unit) (done : Bool), options.includeRuntime.getD true=true →
        (recoverPendingTransaction exampleFormats exampleBuild exampleSwiftHost exampleState.paths options).result w =
          .ok done →
        let d:=((recoverPendingTransaction exampleFormats exampleBuild exampleSwiftHost exampleState.paths
          options).final w).disk
        (∃ root, d = { exampleBefore.disk with restoreStaging := root }) ∨
          Restored exampleArchiveTools 1000 exampleVerified (.ok "") exampleFresh "copy" exampleState d := by
  refine restore_all_or_nothing exampleFormats exampleBuild exampleArchiveTools exampleSwiftHost
    ⟨none,none,some ⟨7,"EIO: i/o error, fsync"⟩⟩ exampleFresh ⟨some true,exampleRuntime⟩ exampleVerified (.ok "")
    "copy" false exampleState ⟨rfl,rfl⟩ (by simp) (final_mem exampleBefore) ?_ .refl
  rintro ⟨c,r,-,hr,-⟩
  exact not_mem_nil hr

end Qubicl.Cli
