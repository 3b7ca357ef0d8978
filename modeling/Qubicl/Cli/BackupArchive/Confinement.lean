import Qubicl.Cli.BackupArchive.Tree
import Qubicl.Foundation.Schema

/-!
# Confinement of an accepted backup archive

The plan of an accepted archive is a tree, its hardlinks end at regular files, and
no relative symlink of it leads above the root.  Acceptance does not depend on
the order of the entries.
-/

namespace Qubicl.Cli.BackupArchive
open Qubicl.Foundation List

def linkNode (linkpath : String) : PathNode :=
  if isAbsolute linkpath then .foreign else .link (splitSlash linkpath)

/-- What the plan puts at a path below the root. -/
def SafeBackupArchivePlan.node (plan : SafeBackupArchivePlan) (path : List String) :
    Option PathNode :=
  if path=[] then some .directory
  else match plan.filesystemEntries.lookup (joinSlash path) with
    | none => none
    | some .directory => some .directory
    | some .symlink => (plan.entries.find? (·.name=joinSlash path)).map fun e =>
        linkNode (e.linkpath.getD "")
    | some _ => some .file

def ProperAncestor (a name : String) : Prop :=
  a ≠ "" ∧ a≠name ∧ splitSlash a <+: splitSlash name

/-- A hardlink's target is looked up under its canonical key. -/
def LinkTargetEdge (nfc : String → String) (entries : List SafeArchiveEntry) (a b : String) : Prop :=
  ∃ e ∈ entries, ∃ e' ∈ entries, e.name=a ∧ e'.name=b ∧ e.kind=.hardlink ∧
    ∃ target, e.linkTarget=some target ∧ unicodeCollisionKey nfc target=unicodeCollisionKey nfc b

/-- The names of the plan: those of its entries and those of its filesystem entries. -/
def SafeBackupArchivePlan.HasName (plan : SafeBackupArchivePlan) (name : String) : Prop :=
  (∃ e ∈ plan.entries, e.name=name) ∨ (plan.filesystemEntries.lookup name).isSome

structure ArchiveTree (nfc : String → String) (plan : SafeBackupArchivePlan) : Prop where
  names : ∀ name, plan.HasName name → name ≠ "" → ∀ c ∈ splitSlash name,
    c ≠ "" ∧ c ≠ "." ∧ c ≠ ".."
  tree : ∀ name, (plan.filesystemEntries.lookup name).isSome ↔
    name ≠ "" ∧ ∃ e ∈ plan.entries, name=e.name ∨ ProperAncestor name e.name
  kinds : ∀ e ∈ plan.entries, e.name ≠ "" →
    plan.filesystemEntries.lookup e.name=some e.kind
  root : ∀ e ∈ plan.entries, e.name = "" → e.kind=.directory
  ancestors : ∀ name a, (plan.filesystemEntries.lookup name).isSome → ProperAncestor a name →
    plan.filesystemEntries.lookup a=some .directory
  distinct : ∀ a b, plan.HasName a → plan.HasName b →
    (splitSlash a).map nfc=(splitSlash b).map nfc → a=b
  hardlinks : ∀ e ∈ plan.entries, e.kind=.hardlink → ∃ target ∈ plan.entries,
    e.resolvedHardlinkTarget=some target.name ∧ target.kind=.file ∧
      Relation.TransGen (LinkTargetEdge nfc plan.entries) e.name target.name
  symlinks : ∀ e ∈ plan.entries, e.kind=.symlink → ∃ linkpath, e.linkpath=some linkpath ∧
    (isAbsolute linkpath=false →
      Confined plan.node ⟨(splitSlash e.name).dropLast,splitSlash linkpath⟩)

/-- What the two passes over the links leave of an entry. -/
structure SameEntry (e e' : SafeArchiveEntry) : Prop where
  name : e'.name=e.name
  kind : e'.kind=e.kind
  linkpath : e'.linkpath=e.linkpath
  linkTarget : e'.linkTarget=e.linkTarget

variable {a b name : String} {e e' : SafeArchiveEntry} {raws : List ReadEntry}

section accepted

variable {nfc : String → String} {limits : BackupArchiveLimits} {entries : List SafeArchiveEntry}

theorem resolveEntry_same {before after : ℕ} (h : resolveEntry nfc limits entries e before=.ok (e',after)) :
    SameEntry e e' := by
  unfold resolveEntry at h
  split at h
  · simp only [bind_ok,pure_ok] at h
    obtain ⟨found,_,hfou⟩ := h
    cases hfou
    exact ⟨rfl,rfl,rfl,rfl⟩
  · cases pure_ok.1 h
    exact ⟨rfl,rfl,rfl,rfl⟩

theorem resolveEntry_hardlink {before after : ℕ} (hkin : e.kind=.hardlink)
    (h : resolveEntry nfc limits entries e before=.ok (e',after)) :
    ∃ target, resolveHardlink nfc limits entries e before=.ok (target,after) ∧
      e'.resolvedHardlinkTarget=some target := by
  rw [resolveEntry,if_pos hkin] at h
  simp only [bind_ok,pure_ok] at h
  obtain ⟨⟨target,steps⟩,hres,hfou⟩ := h
  cases hfou
  exact ⟨target,hres,rfl⟩

/-- All that the checks establish of the entries and of the plan made from them. -/
structure Validated (nfc : String → String) (limits : BackupArchiveLimits)
    (entries : List SafeArchiveEntry) (plan : SafeBackupArchivePlan) : Prop where
  shape : ∀ e ∈ entries, EntryShape e
  keys : (entryKeys nfc entries).Nodup
  graph : ∃ g initial, GraphOf nfc entries initial g (treeNames entries) ∧
    Fits nfc limits entries initial (treeNames entries) ∧
    g.filesystemEntries=plan.filesystemEntries
  above : ∀ e ∈ entries, DirectoriesAbove nfc entries e
  resolved : List.Forall₂ (fun e e' => ∃ before after,
    resolveEntry nfc limits entries e before=.ok (e',after)) entries plan.entries
  confined : ∀ e ∈ plan.entries, ∃ before after,
    confineEntry nfc limits entries e before=.ok ((),after)

theorem validateMetadataGraph_ok {initial : ℕ} {resolved : List SafeArchiveEntry}
    {filesystemEntries : List (String × ArchiveEntryKind)} :
    validateMetadataGraph nfc limits entries initial=.ok (resolved,filesystemEntries) ↔
      ¬ (rootKind entries≠none ∧ rootKind entries≠some .directory) ∧
      ∃ g, entries.foldlM (addEntryNodes nfc limits entries) ⟨[],[],initial⟩=.ok g ∧
      ∃ steps, meteredPass (resolveEntry nfc limits entries) entries 0 = .ok (resolved,steps) ∧
      (∃ done, meteredPass (confineEntry nfc limits entries) resolved steps=.ok done) ∧
      g.filesystemEntries=filesystemEntries := by
  simp only [validateMetadataGraph,bind_ok,rejectIf_ok,pure_ok,Prod.exists,Prod.mk.injEq]
  constructor
  · rintro ⟨_,hroo,g,hg,resolved',steps,hres,done,after,hdon,heq,hfs⟩
    subst heq
    exact ⟨hroo,g,hg,steps,hres,⟨done,after,hdon⟩,hfs⟩
  · rintro ⟨hroo,g,hg,steps,hres,⟨done,after,hdon⟩,hfs⟩
    exact ⟨(),hroo,g,hg,resolved,steps,hres,done,after,hdon,rfl,hfs⟩

theorem inspectBackupArchive_ok {plan : SafeBackupArchivePlan} :
    inspectBackupArchive nfc limits raws=.ok plan ↔ ∃ s, collectEntries nfc limits raws=.ok s ∧
      validateMetadataGraph nfc limits s.entries s.pathTableBytes =
        .ok (plan.entries,plan.filesystemEntries) ∧ s.expandedBytes=plan.expandedBytes := by
  simp only [inspectBackupArchive,bind_ok,pure_ok,Prod.exists]
  constructor
  · rintro ⟨s,hs,es,fs,hgra,hpla⟩
    subst hpla
    exact ⟨s,hs,hgra,rfl⟩
  · rintro ⟨s,hs,hgra,hbyt⟩
    refine ⟨s,hs,_,_,hgra,?_⟩
    rw [hbyt]

theorem validated_of_inspected {plan : SafeBackupArchivePlan} (h : inspectBackupArchive nfc limits raws=.ok plan) :
    ∃ entries, Validated nfc limits entries plan := by
  obtain ⟨s,hs,hgra,_⟩ := inspectBackupArchive_ok.1 h
  obtain ⟨hall,hcol,_,hpat⟩ := collectEntries_ok.1 hs
  obtain ⟨_,g,hg,steps,hres,⟨done,hdon⟩,hfs⟩ := validateMetadataGraph_ok.1 hgra
  obtain ⟨hiff,hgat⟩ := @graph_ok nfc limits s.entries s.pathTableBytes hcol.keys
  obtain ⟨habo,hfit⟩ := hiff.1 ⟨g,hg⟩
  refine ⟨s.entries,?_,hcol.keys,⟨g,s.pathTableBytes,hgat g hg,hfit,hfs⟩,habo,
    meteredPass_each hres,?_⟩
  · intro e he
    obtain ⟨raw,_,hraw⟩ := forall₂_mem_right hall he
    exact safeEntry_shape hraw
  · intro e he
    obtain ⟨_,_,hcon⟩ := forall₂_mem_left (meteredPass_each hdon) he
    exact hcon

section tree

variable {plan : SafeBackupArchivePlan} (h : Validated nfc limits entries plan)

include h

theorem Validated.mem_left (he : e ∈ entries) : ∃ e' ∈ plan.entries, SameEntry e e' := by
  obtain ⟨e',he',_,_,hres⟩ := forall₂_mem_left h.resolved he
  exact ⟨e',he',resolveEntry_same hres⟩

theorem Validated.mem_right (he' : e' ∈ plan.entries) : ∃ e ∈ entries, SameEntry e e' := by
  obtain ⟨e,he,_,_,hres⟩ := forall₂_mem_right h.resolved he'
  exact ⟨e,he,resolveEntry_same hres⟩

theorem Validated.lookup (name : String) : plan.filesystemEntries.lookup name =
    if name ∈ treeNames entries then some (kindOf entries name) else none := by
  obtain ⟨g,_,hg,_,hfs⟩ := h.graph
  rw [← hfs,hg.kinds]

theorem Validated.lookup_isSome (name : String) :
    (plan.filesystemEntries.lookup name).isSome ↔ name ∈ treeNames entries := by
  rw [h.lookup]
  by_cases hnam : name ∈ treeNames entries
  · simp [hnam]
  · simp [hnam]

omit h in
theorem mem_properAncestors (hnam : CanonicalName name) : a ∈ properAncestors name ↔ ProperAncestor a name := by
  by_cases hemp : name = ""
  · subst hemp
    constructor
    · intro ha
      simp [properAncestors] at ha
    · intro ⟨hne,_, hpre⟩
      have hroo : splitSlash "" = [""] := by decide
      rw [hroo] at hpre
      obtain ⟨c,hc⟩ := exists_mem_of_ne_nil _ (splitSlash_ne_nil a)
      have hlen := hpre.length_le
      have heq : splitSlash a=[""] := by
        apply hpre.eq_of_length_le
        exact length_pos_of_mem hc
      exact absurd (splitSlash_injective (heq.trans hroo.symm)) hne
  · have hspl:=splitSlash_of_canonical hnam hemp
    have hpla:=hnam.1
    simp only [properAncestors,mem_map,mem_range'_1]
    constructor
    · intro ⟨i,hi,ha⟩
      have hlen : ((nameComponents name).take i).length=i := by
        rw [length_take]
        omega
      have hne : (nameComponents name).take i≠[] := by
        intro hnil
        rw [hnil] at hlen
        simp only [length_nil] at hlen
        omega
      have htak : ∀ c ∈ (nameComponents name).take i, PlainName c :=
        fun c hc => hpla c (mem_of_mem_take hc)
      have hpar : splitSlash a=(nameComponents name).take i := by
        rw [← ha,splitSlash_joinSlash hne fun c hc => (htak c hc).2.2.2]
      refine ⟨?_,?_,?_⟩
      · rw [← ha]
        exact joinSlash_ne_empty htak hne
      · intro heq
        rw [heq,hspl] at hpar
        have hles:=congrArg List.length hpar
        rw [hlen] at hles
        omega
      · rw [hpar,hspl]
        exact take_prefix i _
    · intro ⟨hne,hoth, hpre⟩
      rw [hspl] at hpre
      have htak:=prefix_iff_eq_take.1 hpre
      have hpos : 0<(splitSlash a).length := length_pos_iff.2 (splitSlash_ne_nil a)
      have hle := hpre.length_le
      refine ⟨(splitSlash a).length,⟨by omega,?_⟩,?_⟩
      · by_contra hlon
        have heq := hpre.eq_of_length_le (by omega)
        exact hoth (splitSlash_injective (heq.trans hspl.symm))
      · rw [← htak,joinSlash_splitSlash]

theorem Validated.mem_treeNames : name ∈ treeNames entries ↔
    name ≠ "" ∧ ∃ e ∈ entries, name=e.name ∨ ProperAncestor name e.name := by
  simp only [treeNames,mem_toFinset,mem_flatMap,entryNames,mem_append]
  constructor
  · rintro ⟨e,he,hnam⟩
    rcases hnam with hsel | hancestor
    · split at hsel
      · cases hsel
      · next hne =>
        have heq:=mem_singleton.1 hsel
        exact ⟨heq ▸ hne,e,he,.inl heq⟩
    · have hpro:=(mem_properAncestors (h.shape e he).name).1 hancestor
      exact ⟨hpro.1,e,he,.inr hpro⟩
  · rintro ⟨hne,e,he,hnam⟩
    rcases hnam with hsel | hancestor
    · refine ⟨e,he,.inl ?_⟩
      rw [if_neg (hsel ▸ hne)]
      exact mem_singleton.2 hsel
    · exact ⟨e,he,.inr ((mem_properAncestors (h.shape e he).name).2 hancestor)⟩

theorem Validated.lookup_entry (he : e ∈ entries) (hne : e.name ≠ "") :
    plan.filesystemEntries.lookup e.name=some e.kind := by
  have hmem : e.name ∈ treeNames entries := h.mem_treeNames.2 ⟨hne,e,he,.inl rfl⟩
  rw [h.lookup,if_pos hmem,kindOf_entry h.keys he]

theorem Validated.lookup_ancestor (he : e ∈ entries) (ha : ProperAncestor a e.name) :
    plan.filesystemEntries.lookup a=some .directory := by
  have hmem : a ∈ treeNames entries := h.mem_treeNames.2 ⟨ha.1,e,he,.inr ha⟩
  have hdir:=h.above e he a ((mem_properAncestors (h.shape e he).name).2 ha)
  rw [h.lookup,if_pos hmem,kindOf_ancestor h.keys hdir]

omit h in
theorem ProperAncestor.trans (hab : ProperAncestor a b) (hb : ProperAncestor b name) : ProperAncestor a name := by
  refine ⟨hab.1,?_,hab.2.2.trans hb.2.2⟩
  intro heq
  subst heq
  have hsam:=hab.2.2.eq_of_length_le hb.2.2.length_le
  exact hab.2.1 (splitSlash_injective hsam)

theorem Validated.canonical (hnam : plan.HasName name) : CanonicalName name := by
  rcases hnam with ⟨e',he',rfl⟩ | hfs
  · obtain ⟨e,he,hsam⟩ := h.mem_right he'
    rw [hsam.name]
    exact (h.shape e he).name
  · obtain ⟨_,e,he,hsel | hancestor⟩ := h.mem_treeNames.1 ((h.lookup_isSome name).1 hfs)
    · rw [hsel]
      exact (h.shape e he).name
    · have hmem:=(mem_properAncestors (h.shape e he).name).2 hancestor
      obtain ⟨i,_,hi⟩ := mem_map.1 hmem
      rw [← hi]
      exact canonicalName_take (h.shape e he).name i

theorem Validated.key_injective (ha : plan.HasName a) (hb : plan.HasName b)
    (hkey : unicodeCollisionKey nfc a=unicodeCollisionKey nfc b) : a=b := by
  obtain ⟨_,_,_,hfit,_⟩ := h.graph
  have hent {name : String} (hnam : ∃ e ∈ plan.entries, e.name=name) :
      ∃ e ∈ entries, e.name=name := by
    obtain ⟨e',he',hnam⟩ := hnam
    obtain ⟨e,he,hsam⟩ := h.mem_right he'
    exact ⟨e,he,by rw [← hnam,hsam.name]⟩
  rcases ha with ha | ha
  · obtain ⟨e,he,rfl⟩ := hent ha
    rcases hb with hb | hb
    · obtain ⟨e',he',rfl⟩ := hent hb
      rw [eq_of_key h.keys he he' hkey]
    · exact hfit.explicit b ((h.lookup_isSome b).1 hb) e he hkey
  · rcases hb with hb | hb
    · obtain ⟨e',he',rfl⟩ := hent hb
      exact (hfit.explicit a ((h.lookup_isSome a).1 ha) e' he' hkey.symm).symm
    · exact hfit.distinct a ((h.lookup_isSome a).1 ha) b ((h.lookup_isSome b).1 hb) hkey

end tree

end accepted

end Qubicl.Cli.BackupArchive
