import Qubicl.Cli.BackupArchive.Confinement

/-!
# Links of an accepted backup archive

The two link loops.
-/

namespace Qubicl.Cli.BackupArchive
open Qubicl.Foundation List Option

variable {dir rest : List String} {e' : SafeArchiveEntry}

section links

variable {nfc : String → String} {limits : BackupArchiveLimits} {entries : List SafeArchiveEntry}

variable {entry : SafeArchiveEntry}

/-- A turn that goes on has found a regular file, which is the answer, or a hardlink, whose target is next. -/
theorem hardlinkTurn_cases {s : HardlinkSearch} {turn : Turn HardlinkSearch String}
    (h : hardlinkTurn nfc limits entries entry s=.ok turn) :
    ∃ found ∈ entries, unicodeCollisionKey nfc found.name=unicodeCollisionKey nfc s.target ∧
      (found.kind=.file ∧ turn=.done found.name ∨
        found.kind=.hardlink ∧ ∃ s', turn=.again s' ∧ s'.target=found.linkTarget.getD "") := by
  simp only [hardlinkTurn,bind_ok] at h
  obtain ⟨_,_,_,_,h⟩ := h
  split at h
  · cases h
  · next found hfin =>
    obtain ⟨hmem,hkey⟩ := entryByKey_mem hfin
    refine ⟨found,hmem,hkey,?_⟩
    split at h
    next hkin =>
      cases h
      exact Or.inl ⟨hkin,rfl⟩
    next hkin =>
      cases h
      exact Or.inr ⟨hkin,_,rfl,rfl⟩
    next => cases h

theorem linkTargetEdge_of_hardlink {e found : SafeArchiveEntry} (hsha : EntryShape e)
    (he : e ∈ entries) (hkin : e.kind=.hardlink) (hfou : found ∈ entries)
    (hkey : unicodeCollisionKey nfc found.name=unicodeCollisionKey nfc (e.linkTarget.getD "")) :
    LinkTargetEdge nfc entries e.name found.name := by
  obtain ⟨target,htar⟩ := hsha.linkTarget hkin
  rw [htar] at hkey
  exact ⟨e,he,found,hfou,rfl,rfl,hkin,target,htar,hkey.symm⟩

/-- By induction on the turns: from any hardlink whose target is searched, link
target edges lead to the regular file that is found. -/
theorem hardlinkSearch_reaches (hsha : ∀ e ∈ entries, EntryShape e)
    {steps steps' : ℕ} {s : HardlinkSearch} {name : String}
    (h : meteredLoop limits.maxLinkResolutionSteps (linkBudgetExceeded limits) (fun _ => none)
      (hardlinkTurn nfc limits entries entry) steps s=.ok (name,steps')) :
    ∀ e ∈ entries, e.kind=.hardlink → e.linkTarget.getD "" = s.target →
      ∃ found ∈ entries, found.kind=.file ∧ found.name=name ∧
        Relation.TransGen (LinkTargetEdge nfc entries) e.name name := by
  refine meteredLoop_induction (motive := fun _ s _ => ∀ e ∈ entries, e.kind=.hardlink →
    e.linkTarget.getD "" = s.target → ∃ found ∈ entries, found.kind=.file ∧ found.name=name ∧
      Relation.TransGen (LinkTargetEdge nfc entries) e.name name) ?_ ?_ ?_ h
  · intro _ _ hfin
    cases hfin
  · intro _ s _ _ htur e he hkin htar
    obtain ⟨found,hfou,hkey,⟨hfil,hdon⟩ | ⟨-,_,haga,-⟩⟩ := hardlinkTurn_cases htur
    case inr => cases haga
    obtain rfl := Turn.done.inj hdon
    rw [← htar] at hkey
    have hedg:=linkTargetEdge_of_hardlink (hsha e he) he hkin hfou hkey
    exact ⟨found,hfou,hfil,rfl,.single hedg⟩
  · intro _ s s' _ _ _ htur ih e he hkin htar
    obtain ⟨between,hbet,hkey,⟨-,hdon⟩ | ⟨hhar,s',haga,hnex⟩⟩ := hardlinkTurn_cases htur
    case inl => cases hdon
    cases haga
    rw [← htar] at hkey
    have hedg:=linkTargetEdge_of_hardlink (hsha e he) he hkin hbet hkey
    obtain ⟨found,hfou,hfil,hnam,hrea⟩ := ih between hbet hhar hnex.symm
    exact ⟨found,hfou,hfil,hnam,.head hedg hrea⟩

section plan

variable {plan : SafeBackupArchivePlan} (h : Validated nfc limits entries plan)

include h

theorem Validated.edge {a b : String} (hedg : LinkTargetEdge nfc entries a b) :
    LinkTargetEdge nfc plan.entries a b := by
  obtain ⟨e,he,f,hf,hea,hfb,hkin,target,htar,hkey⟩ := hedg
  obtain ⟨e',he',hsam⟩ := h.mem_left he
  obtain ⟨f',hf',hsam'⟩ := h.mem_left hf
  exact ⟨e',he',f',hf',by rw [hsam.name,hea],by rw [hsam'.name,hfb],
    by rw [hsam.kind,hkin],target,by rw [hsam.linkTarget,htar],hkey⟩

theorem Validated.hardlinks (he' : e' ∈ plan.entries) (hkin : e'.kind=.hardlink) : ∃ target ∈ plan.entries,
      e'.resolvedHardlinkTarget=some target.name ∧ target.kind=.file ∧
        Relation.TransGen (LinkTargetEdge nfc plan.entries) e'.name target.name := by
  obtain ⟨e,he,before,after,hres⟩ := forall₂_mem_right h.resolved he'
  have hsam:=resolveEntry_same hres
  rw [hsam.kind] at hkin
  obtain ⟨name,hsea,htar⟩ := resolveEntry_hardlink hkin hres
  obtain ⟨found,hfou,hfil,hnam,hrea⟩ :=
    hardlinkSearch_reaches h.shape hsea e he hkin rfl
  obtain ⟨found',hfou',hsam'⟩ := h.mem_left hfou
  refine ⟨found',hfou',?_,?_,?_⟩
  · rw [htar,hsam'.name,hnam]
  · rw [hsam'.kind,hfil]
  · rw [hsam.name,hsam'.name,hnam]
    exact Relation.TransGen.lift id (fun _ _ => h.edge) _ _ hrea

theorem Validated.symlinkAt_directory {path : String}
    (hpat : plan.filesystemEntries.lookup path=some .directory) :
    symlinkAt nfc entries (unicodeCollisionKey nfc path)=none := by
  obtain ⟨_,_,_,hfit,_⟩ := h.graph
  have hmem : path ∈ treeNames entries := by
    rw [← h.lookup_isSome,hpat]
    rfl
  have hkindOf : kindOf entries path=.directory := by
    rw [h.lookup,if_pos hmem] at hpat
    simpa using hpat
  unfold symlinkAt
  cases hfin : entryByKey nfc entries (unicodeCollisionKey nfc path) with
  | none => rfl
  | some e =>
    obtain ⟨he,hkey⟩ := entryByKey_mem hfin
    have hnam:=hfit.explicit path hmem e he hkey
    have hkin:=kindOf_entry h.keys he
    rw [hnam,hkindOf] at hkin
    simp [← hkin]

theorem Validated.symlinkAt_link {path : List String} {target : List String} (hne : path≠[])
    (hnod : plan.node path=some (.link target)) :
    ∃ linkpath, symlinkAt nfc entries (unicodeCollisionKey nfc (joinSlash path))=some linkpath ∧
      isAbsolute linkpath=false ∧ splitSlash linkpath=target := by
  rw [SafeBackupArchivePlan.node,if_neg hne] at hnod
  cases hloo : plan.filesystemEntries.lookup (joinSlash path) with
  | none =>
    rw [hloo] at hnod
    cases hnod
  | some kind =>
    rw [hloo] at hnod
    cases kind with
    | directory => cases hnod
    | file => cases hnod
    | hardlink => cases hnod
    | symlink =>
      simp only [map_eq_some_iff] at hnod
      obtain ⟨e',hfin,hlin⟩ := hnod
      have hnam' : e'.name=joinSlash path := by simpa using find?_some hfin
      obtain ⟨e,he,hsam⟩ := h.mem_right (mem_of_find?_eq_some hfin)
      have hnam : e.name=joinSlash path := by rw [← hsam.name,hnam']
      have hpat : joinSlash path ≠ "" := by
        have hmem:=(h.lookup_isSome (joinSlash path)).1 (by rw [hloo]; rfl)
        exact (h.mem_treeNames.1 hmem).1
      have hkin : e.kind=.symlink := by
        have hent:=h.lookup_entry he (hnam ▸ hpat)
        rw [hnam,hloo] at hent
        simpa using hent.symm
      have hat : symlinkAt nfc entries (unicodeCollisionKey nfc (joinSlash path)) =
          some (e.linkpath.getD "") := by
        unfold symlinkAt
        rw [(entryByKey_iff h.keys).2 ⟨he,by rw [hnam]⟩]
        simp [hkin]
      rw [hsam.linkpath,linkNode] at hlin
      split at hlin
      · cases hlin
      · next habs =>
        cases hlin
        exact ⟨_,hat,by simpa using habs,rfl⟩

/-- The source's walk from here ends without an error. -/
def WalkAccepted (nfc : String → String) (limits : BackupArchiveLimits)
    (entries : List SafeArchiveEntry) (entry : SafeArchiveEntry) (w : Walk) : Prop :=
  ∃ steps steps' bytes followed, meteredLoop limits.maxLinkResolutionSteps
    (linkBudgetExceeded limits) SymlinkWalk.finished (symlinkTurn nfc limits entries entry) steps
    ⟨w.directory,bytes,w.pending,followed⟩=.ok ((),steps')

variable {entry : SafeArchiveEntry}

omit h in
theorem WalkAccepted.turn {c : String} (hacc : WalkAccepted nfc limits entries entry ⟨dir,c::rest⟩) :
    ∃ bytes followed outcome,
      symlinkTurn nfc limits entries entry ⟨dir,bytes,c::rest,followed⟩=.ok outcome ∧
      ∀ s', outcome=.again s' → WalkAccepted nfc limits entries entry ⟨s'.resolved,s'.pending⟩ := by
  obtain ⟨steps,steps',bytes,followed,hloo⟩ := hacc
  rcases meteredLoop_cases hloo with ⟨hfin,_⟩ | ⟨_,_,⟨htur,_⟩ | ⟨s',htur,hres⟩⟩
  · simp [SymlinkWalk.finished] at hfin
  · exact ⟨bytes,followed,_,htur,nofun⟩
  · refine ⟨bytes,followed,_,htur,?_⟩
    intro s hs
    cases hs
    exact ⟨_,_,_,_,hres⟩

omit h in
theorem WalkAccepted.not_aboveRoot {w : Walk}
    (hacc : WalkAccepted nfc limits entries entry w) : ¬ w.AboveRoot := by
  obtain ⟨dir,pending⟩ := w
  intro ⟨hdir,hhea⟩
  cases pending with
  | nil => cases hhea
  | cons c rest =>
    simp only at hdir
    cases hhea
    subst hdir
    obtain ⟨_,_,_,htur,_⟩ := hacc.turn
    simp [symlinkTurn] at htur

omit h in
theorem symlinkTurn_name {c : String} {bytes : ℤ} {followed : List String} {outcome : Turn SymlinkWalk Unit}
    (hc : c ≠ "" ∧ c ≠ "." ∧ c ≠ "..")
    (htur : symlinkTurn nfc limits entries entry ⟨dir,bytes,c::rest,followed⟩=.ok outcome) :
    enterComponent nfc limits entries entry ⟨dir,bytes,c::rest,followed⟩ c rest =
      .ok outcome := by
  have hski : ¬ (c = "" ∨ c = ".") := fun hski => hski.elim hc.1 hc.2.1
  simpa only [symlinkTurn,hski,hc.2.2,if_false] using htur

/-- One lemma for each kind of step of the tree: the source's loop takes it too. -/
theorem Validated.walkAccepted_step {w w' : Walk}
    (hacc : WalkAccepted nfc limits entries entry w) (hste : WalkStep plan.node w w') :
    WalkAccepted nfc limits entries entry w' := by
  cases hste with
  | @stay dir rest c hc =>
    obtain ⟨bytes,followed,outcome,htur,hnex⟩ := hacc.turn
    simp only [symlinkTurn,hc,if_true,pure_ok] at htur
    exact hnex _ htur.symm
  | @up dir rest hdir =>
    obtain ⟨bytes,followed,outcome,htur,hnex⟩ := hacc.turn
    have hlas : dir.getLast? = some (dir.getLast hdir) := getLast?_eq_some_getLast hdir
    have hski : ¬ (".." = "" ∨ ".." = ".") := by decide
    simp only [symlinkTurn,hski,if_false,if_true,hlas,pure_ok] at htur
    exact hnex _ htur.symm
  | @enter dir rest c hc hnod =>
    obtain ⟨bytes,followed,outcome,htur,hnex⟩ := hacc.turn
    have hpat : dir++[c]≠[] := by simp
    have hdiy : plan.filesystemEntries.lookup (joinSlash (dir++[c])) =
        some .directory := by
      rw [SafeBackupArchivePlan.node,if_neg hpat] at hnod
      cases hloo : plan.filesystemEntries.lookup (joinSlash (dir++[c])) with
      | none => simp [hloo] at hnod
      | some kind =>
        cases kind with
        | directory => rfl
        | file => simp [hloo] at hnod
        | hardlink => simp [hloo] at hnod
        | symlink =>
          simp only [hloo,map_eq_some_iff,linkNode] at hnod
          obtain ⟨_,_,hlin⟩ := hnod
          split at hlin <;> cases hlin
    have hent:=symlinkTurn_name hc htur
    simp only [enterComponent,bind_ok,h.symlinkAt_directory hdiy,pure_ok] at hent
    obtain ⟨_,_,_,_,hout⟩ := hent
    exact hnex _ hout.symm
  | @follow dir rest target c hc hnod =>
    obtain ⟨bytes,followed,outcome,htur,hnex⟩ := hacc.turn
    obtain ⟨linkpath,hat,habs,htar⟩ := h.symlinkAt_link (by simp) hnod
    have hent:=symlinkTurn_name hc htur
    simp only [enterComponent,bind_ok,hat,habs,Bool.false_eq_true,if_false,pure_ok]
      at hent
    obtain ⟨_,_,_,_,_,_,_,_,hout⟩ := hent
    subst htar
    exact hnex _ hout.symm

theorem Validated.symlinks (he' : e' ∈ plan.entries) (hkin : e'.kind=.symlink) :
    ∃ linkpath, e'.linkpath=some linkpath ∧
      (isAbsolute linkpath=false →
        Confined plan.node ⟨(splitSlash e'.name).dropLast,splitSlash linkpath⟩) := by
  obtain ⟨e,he,hsam⟩ := h.mem_right he'
  have hsha:=h.shape e he
  obtain ⟨linkpath,hlin⟩ := hsha.linkpath (by rw [← hsam.kind,hkin])
  rw [← hsam.linkpath] at hlin
  refine ⟨linkpath,hlin,?_⟩
  intro hrel
  obtain ⟨before,after,hcon⟩ := h.confined e' he'
  rw [confineEntry,if_pos hkin,assertConfinedAcyclicSymlink,hlin,getD_some,
    hrel] at hcon
  have hne : e'.name ≠ "" := by
    intro hemp
    have hroo:=hsha.root (by rw [← hsam.name,hemp])
    rw [← hsam.kind,hkin] at hroo
    cases hroo
  have hcan : CanonicalName e'.name := by
    rw [hsam.name]
    exact hsha.name
  rw [nameComponents_dirname hcan hne,← splitSlash_of_canonical hcan hne] at hcon
  apply Confined.of_invariant (P := WalkAccepted nfc limits entries e')
  · exact fun _ hacc => hacc.not_aboveRoot
  · exact fun _ _ => h.walkAccepted_step
  · exact ⟨_,_,_,_,hcon⟩

theorem Validated.archiveTree : ArchiveTree nfc plan where
  names name hnam hne c hc := by
    have hcan:=h.canonical hnam
    rw [splitSlash_of_canonical hcan hne] at hc
    have hpla:=hcan.1 c hc
    exact ⟨hpla.1,hpla.2.1,hpla.2.2.1⟩
  tree name := by
    rw [h.lookup_isSome,h.mem_treeNames]
    constructor
    · intro ⟨hne,e,he,hnam⟩
      obtain ⟨e',he',hsam⟩ := h.mem_left he
      rw [← hsam.name] at hnam
      exact ⟨hne,e',he',hnam⟩
    · intro ⟨hne,e',he',hnam⟩
      obtain ⟨e,he,hsam⟩ := h.mem_right he'
      rw [hsam.name] at hnam
      exact ⟨hne,e,he,hnam⟩
  kinds e' he' hne := by
    obtain ⟨e,he,hsam⟩ := h.mem_right he'
    rw [hsam.name] at hne
    rw [hsam.name,hsam.kind,h.lookup_entry he hne]
  root e' he' hemp := by
    obtain ⟨e,he,hsam⟩ := h.mem_right he'
    rw [hsam.kind]
    exact (h.shape e he).root (by rw [← hsam.name,hemp])
  ancestors name a hnam ha := by
    obtain ⟨_,e,he,hsel | hancestor⟩ := h.mem_treeNames.1 ((h.lookup_isSome name).1 hnam)
    · exact h.lookup_ancestor he (hsel ▸ ha)
    · exact h.lookup_ancestor he (ha.trans hancestor)
  distinct a b ha hb hnfc := by
    apply h.key_injective ha hb
    rw [unicodeCollisionKey,unicodeCollisionKey,hnfc]
  hardlinks _ he' hkin := h.hardlinks he' hkin
  symlinks _ he' hkin := h.symlinks he' hkin

end plan

theorem resolveEntry_metered (entry : SafeArchiveEntry) :
    Metered limits.maxLinkResolutionSteps (resolveEntry nfc limits entries entry) := by
  by_cases hkin : entry.kind=.hardlink
  · have hres : resolveEntry nfc limits entries entry=fun steps =>
        (resolveHardlink nfc limits entries entry steps).map fun found =>
          ({ entry with resolvedHardlinkTarget := some found.1 },found.2) := by
      funext steps
      rw [resolveEntry,if_pos hkin]
      cases resolveHardlink nfc limits entries entry steps with
      | error e => rfl
      | ok found => rfl
    rw [hres]
    exact Metered.map (fun target => { entry with resolvedHardlinkTarget := some target })
      (meteredLoop_metered _)
  · have hres : resolveEntry nfc limits entries entry=fun steps => .ok (entry,steps) := by
      funext steps
      rw [resolveEntry,if_neg hkin]
      rfl
    rw [hres]
    exact metered_pure _ entry

theorem confineEntry_metered (entry : SafeArchiveEntry) :
    Metered limits.maxLinkResolutionSteps (confineEntry nfc limits entries entry) := by
  unfold confineEntry assertConfinedAcyclicSymlink
  by_cases hkin : entry.kind=.symlink
  · simp only [hkin,if_true]
    by_cases habs : isAbsolute (entry.linkpath.getD "")=true
    · simp only [habs,if_true]
      exact metered_pure _ ()
    · simp only [habs]
      exact meteredLoop_metered _
  · simp only [hkin,if_false]
    exact metered_pure _ ()

theorem linkLoops_congr {entries' : List SafeArchiveEntry}
    (h : entryByKey nfc entries'=entryByKey nfc entries) :
    resolveEntry nfc limits entries'=resolveEntry nfc limits entries ∧
      confineEntry nfc limits entries'=confineEntry nfc limits entries := by
  have htur : hardlinkTurn nfc limits entries'=hardlinkTurn nfc limits entries := by
    funext entry s
    simp only [hardlinkTurn,h]
  have hat : symlinkAt nfc entries'=symlinkAt nfc entries := by
    funext key
    simp only [symlinkAt,h]
  have hwal : symlinkTurn nfc limits entries'=symlinkTurn nfc limits entries := by
    funext entry s
    simp only [symlinkTurn,enterComponent,hat]
  constructor
  · funext entry steps
    simp only [resolveEntry,resolveHardlink,htur]
  · funext entry steps
    simp only [confineEntry,assertConfinedAcyclicSymlink,hwal]

theorem rootKind_of_shape (hsha : ∀ e ∈ entries, EntryShape e) :
    ¬ (rootKind entries≠none ∧ rootKind entries≠some .directory) := by
  intro ⟨hsom,hoth⟩
  obtain ⟨kind,hkin⟩ := ne_none_iff_exists'.1 hsom
  obtain ⟨e,hfin,he⟩ := map_eq_some_iff.1 hkin
  have hnam : e.name = "" := by simpa using find?_some hfin
  have hroo:=(hsha e (mem_of_find?_eq_some hfin)).root hnam
  rw [hkin,← he,hroo] at hoth
  exact hoth rfl

/-- The two link passes after a permutation: the table by key is the same, so each
loop takes the same steps, and their sum decides. -/
theorem validateMetadataGraph_perm {entries' : List SafeArchiveEntry} {initial : ℕ}
    {out : List SafeArchiveEntry × List (String × ArchiveEntryKind)}
    (hsha : ∀ e ∈ entries, EntryShape e) (hkey : (entryKeys nfc entries).Nodup)
    (hper : entries.Perm entries')
    (h : validateMetadataGraph nfc limits entries initial=.ok out) :
    ∃ out', validateMetadataGraph nfc limits entries' initial=.ok out' := by
  obtain ⟨_,g,hg,steps,hres,⟨done,hdon⟩,_⟩ := validateMetadataGraph_ok.1 h
  obtain ⟨g',hg'⟩ := graph_perm hper hkey hg
  have htab : entryByKey nfc entries'=entryByKey nfc entries := by
    funext key
    exact entryByKey_perm hper hkey key
  obtain ⟨hresolveEq,hconfineEq⟩ := @linkLoops_congr nfc limits entries entries' htab
  obtain ⟨resolved',hresolvedPerm,hres'⟩ :=
    meteredPass_perm resolveEntry_metered hper (Nat.zero_le _) hres
  have hste:=meteredPass_le resolveEntry_metered (Nat.zero_le _) hres
  obtain ⟨done',_,hdon'⟩ :=
    meteredPass_perm confineEntry_metered hresolvedPerm hste hdon
  refine ⟨(resolved',g'.filesystemEntries),validateMetadataGraph_ok.2 ⟨?_,g',hg',steps,?_,?_,rfl⟩⟩
  · exact rootKind_of_shape fun e he => hsha e (hper.mem_iff.2 he)
  · rw [hresolveEq]
    exact hres'
  · rw [hconfineEq]
    exact ⟨_,hdon'⟩

theorem inspectBackupArchive_perm {raws raws' : List ReadEntry} {plan : SafeBackupArchivePlan}
    (hper : raws.Perm raws') (h : inspectBackupArchive nfc limits raws=.ok plan) :
    ∃ plan', inspectBackupArchive nfc limits raws'=.ok plan' := by
  obtain ⟨s,hs,hgra,_⟩ := inspectBackupArchive_ok.1 h
  obtain ⟨hall,hcol,_,hpat⟩ := collectEntries_ok.1 hs
  obtain ⟨entries',hall',hent⟩ := perm_comp_forall₂ hper.symm hall
  have hsha : ∀ e ∈ s.entries, EntryShape e := by
    intro e he
    obtain ⟨raw,_,hraw⟩ := forall₂_mem_right hall he
    exact safeEntry_shape hraw
  have htab : pathTable nfc entries'=s.pathTableBytes := by
    rw [hpat]
    exact (hent.map _).sum_nat
  obtain ⟨⟨resolved,fs⟩,hgra'⟩ :=
    validateMetadataGraph_perm hsha hcol.keys hent.symm hgra
  refine ⟨⟨resolved,fs,sizes entries'⟩,inspectBackupArchive_ok.2
    ⟨⟨entries',sizes entries',s.pathTableBytes⟩,?_,hgra',rfl⟩⟩
  exact collectEntries_ok.2 ⟨hall',hcol.perm hent.symm,rfl,htab.symm⟩

end links

/-- Whatever entries an archive lists and in whatever order: an accepted one is a
tree with confined links, and a permuted one is accepted too.  The root entry is
the one name that is not among the filesystem entries. -/
theorem accepted_archive_is_confined_tree (nfc : String → String) (limits : BackupArchiveLimits) :
    (∀ raws plan, inspectBackupArchive nfc limits raws=.ok plan → ArchiveTree nfc plan) ∧
    ∀ raws raws', raws.Perm raws' →
      ((∃ plan, inspectBackupArchive nfc limits raws=.ok plan) ↔
        ∃ plan, inspectBackupArchive nfc limits raws'=.ok plan) := by
  constructor
  · intro raws plan h
    obtain ⟨_,hval⟩ := validated_of_inspected h
    exact hval.archiveTree
  · intro raws raws' hper
    constructor
    · intro ⟨plan,h⟩
      exact inspectBackupArchive_perm hper h
    · intro ⟨plan,h⟩
      exact inspectBackupArchive_perm hper.symm h

/-- The entries of a small archive: a chain of hardlinks, and a relative symlink that
passes through another one. -/
def linkedArchive : List ReadEntry :=
  [⟨"Directory","./",0,some 0o755,none⟩,
    ⟨"File","./home/a.txt",3,some 0o644,none⟩,
    ⟨"Link","./home/b",0,none,some "./home/a.txt"⟩,
    ⟨"Link","c",0,none,some "./home/b"⟩,
    ⟨"SymbolicLink","home/x/s",0,none,some "../../home/t"⟩,
    ⟨"SymbolicLink","home/t",0,none,some "../home/x/../b"⟩]

theorem accepted_archive_is_confined_tree_linked :
    ∃ plan, inspectBackupArchive id BACKUP_ARCHIVE_LIMITS linkedArchive=.ok plan ∧
      ArchiveTree id plan ∧
      ∃ plan', inspectBackupArchive id BACKUP_ARCHIVE_LIMITS linkedArchive.reverse=.ok plan' := by
  have hacc : ∃ plan, inspectBackupArchive id BACKUP_ARCHIVE_LIMITS linkedArchive=.ok plan := by
    have hok : (inspectBackupArchive id BACKUP_ARCHIVE_LIMITS linkedArchive).toBool=true := by
      decide +kernel
    cases h : inspectBackupArchive id BACKUP_ARCHIVE_LIMITS linkedArchive with
    | error e => simp [h,Except.toBool] at hok
    | ok plan => exact ⟨plan,rfl⟩
  obtain ⟨plan,hpla⟩ := hacc
  have hthe:=accepted_archive_is_confined_tree id BACKUP_ARCHIVE_LIMITS
  exact ⟨plan,hpla,hthe.1 _ plan hpla,
    (hthe.2 _ _ linkedArchive.reverse_perm.symm).1 ⟨plan,hpla⟩⟩

theorem root_entry_has_no_filesystem_entry :
    ∃ plan, inspectBackupArchive id BACKUP_ARCHIVE_LIMITS
        [⟨"Directory","./",0,some 0o755,none⟩]=.ok plan ∧
      ∃ e ∈ plan.entries, "" ∈ splitSlash e.name ∧ plan.filesystemEntries.lookup e.name=none := by
  refine ⟨⟨[⟨"",.directory,0,0o755,none,none,none⟩],[],0⟩,?_,?_⟩
  · decide
  · exact ⟨_,mem_cons_self,by decide,rfl⟩

end Qubicl.Cli.BackupArchive
