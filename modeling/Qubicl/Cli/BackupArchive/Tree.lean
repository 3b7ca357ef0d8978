import Qubicl.Cli.BackupArchive.Accepted

/-!
# The tree of the filesystem entries

The loop of `validateMetadataGraph` over the entries gathers their names and the names of their ancestors.
-/

namespace Qubicl.Cli.BackupArchive
open Qubicl.Foundation List Option

variable {ancestor name : String} {e : SafeArchiveEntry}

section tree

variable (nfc : String → String) (limits : BackupArchiveLimits) (entries : List SafeArchiveEntry)
  (initial : ℕ)

/-- An ancestor that no entry declares is a directory. -/
def kindOf (name : String) : ArchiveEntryKind :=
  match entries.find? (·.name=name) with
  | none => .directory
  | some e => e.kind

def nodeCost (name : String) : ℕ := nodeBytes nfc name (!hasEntry entries name)

def graphBytes (names : Finset String) : ℕ := initial+names.sum (nodeCost nfc entries)

structure Fits (names : Finset String) : Prop where
  explicit : ∀ n ∈ names, ∀ e ∈ entries,
    unicodeCollisionKey nfc e.name=unicodeCollisionKey nfc n → e.name=n
  distinct : ∀ n ∈ names, ∀ m ∈ names,
    unicodeCollisionKey nfc n=unicodeCollisionKey nfc m → n=m
  count : names.card≤limits.maxFilesystemEntries
  bytes : names.Nonempty → graphBytes nfc entries initial names≤limits.maxPathTableBytes ∧
    graphBytes nfc entries initial names≤MAX_SAFE_INTEGER

/-- The graph that holds exactly these names. -/
structure GraphOf (g : Graph) (names : Finset String) : Prop where
  kinds : ∀ name, g.filesystemEntries.lookup name =
    if name ∈ names then some (kindOf entries name) else none
  size : g.filesystemEntries.length=names.card
  canonical : ∀ key name, g.filesystemCanonicalNames.lookup key=some name ↔
    name ∈ names ∧ unicodeCollisionKey nfc name=key
  bytes : g.pathTableBytes=graphBytes nfc entries initial names

variable {nfc limits entries initial}

theorem kindOf_entry (hkeys : (entryKeys nfc entries).Nodup) (he : e ∈ entries) : kindOf entries e.name=e.kind := by
  cases hfin : entries.find? (·.name=e.name) with
  | none =>
    have hnon:=find?_eq_none.1 hfin e he
    simp at hnon
  | some e' =>
    have hnam : e'.name=e.name := by simpa using find?_some hfin
    have heq:=eq_of_name hkeys (mem_of_find?_eq_some hfin) he hnam
    simp [kindOf,hfin,heq]

theorem Fits.subset {names more : Finset String} (hsub : names ⊆ more)
    (h : Fits nfc limits entries initial more) : Fits nfc limits entries initial names := by
  have hsum : graphBytes nfc entries initial names≤graphBytes nfc entries initial more :=
    Nat.add_le_add_left (Finset.sum_le_sum_of_subset hsub) initial
  refine ⟨?_,?_,?_,?_⟩
  · intro n hn
    exact h.explicit n (hsub hn)
  · intro n hn m hm
    exact h.distinct n (hsub hn) m (hsub hm)
  · exact (Finset.card_le_card hsub).trans h.count
  · intro hne
    obtain ⟨hlim,hsaf⟩ := h.bytes (hne.mono hsub)
    exact ⟨hsum.trans hlim,hsum.trans hsaf⟩

theorem fits_empty : Fits nfc limits entries initial ∅ := by
  refine ⟨?_,?_,?_,?_⟩ <;> simp

theorem graphOf_empty : GraphOf nfc entries initial ⟨[],[],initial⟩ ∅ := by
  refine ⟨?_,?_,?_,?_⟩ <;> simp [graphBytes]

variable {names : Finset String} {g : Graph}

theorem collidingName_none (hkeys : (entryKeys nfc entries).Nodup) (hg : GraphOf nfc entries initial g names) :
    collidingName nfc entries g name=none ↔
      (∀ e ∈ entries, unicodeCollisionKey nfc e.name=unicodeCollisionKey nfc name →
        e.name=name) ∧
      ∀ n ∈ names, unicodeCollisionKey nfc n=unicodeCollisionKey nfc name → n=name := by
  have hexp : ((entryByKey nfc entries (unicodeCollisionKey nfc name)).map (·.name)).filter
      (· ≠ name)=none ↔ ∀ e ∈ entries,
        unicodeCollisionKey nfc e.name=unicodeCollisionKey nfc name → e.name=name := by
    simp only [filter_eq_none_iff,map_eq_some_iff,entryByKey_iff hkeys]
    constructor
    · intro h e he hkey
      simpa using h e.name ⟨e,⟨he,hkey⟩,rfl⟩
    · intro h n ⟨e,⟨he,hkey⟩,hnam⟩
      subst hnam
      simpa using h e he hkey
  have hgra : (g.filesystemCanonicalNames.lookup (unicodeCollisionKey nfc name)).filter
      (· ≠ name)=none ↔ ∀ n ∈ names,
        unicodeCollisionKey nfc n=unicodeCollisionKey nfc name → n=name := by
    simp only [filter_eq_none_iff,hg.canonical]
    constructor
    · intro h n hn hkey
      simpa using h n ⟨hn,hkey⟩
    · intro h n ⟨hn,hkey⟩
      simpa using h n hn hkey
  simp only [collidingName,orElse_eq_orElse,orElse_eq_or,or_eq_none_iff,hexp,hgra]

theorem chargeNode_ok (hg : GraphOf nfc entries initial g names) {bytes : ℕ} :
    chargeNode nfc limits g name (!hasEntry entries name)=.ok bytes ↔
      bytes=graphBytes nfc entries initial (insert name names) ∧
      (name ∈ names ∨ (names.card+1≤limits.maxFilesystemEntries ∧
        bytes≤limits.maxPathTableBytes ∧ bytes≤MAX_SAFE_INTEGER)) := by
  by_cases hmem : name ∈ names
  · rw [chargeNode,hg.kinds,if_pos hmem,isSome_some,if_pos rfl,pure_ok,
      Finset.insert_eq_of_mem hmem,hg.bytes]
    constructor
    · intro h
      exact ⟨h.symm,.inl hmem⟩
    · intro h
      exact h.1.symm
  · have hsum : graphBytes nfc entries initial (insert name names) =
        g.pathTableBytes+nodeBytes nfc name (!hasEntry entries name) := by
      have hcos : (insert name names).sum (nodeCost nfc entries) =
          nodeCost nfc entries name+names.sum (nodeCost nfc entries) := Finset.sum_insert hmem
      rw [hg.bytes,graphBytes,graphBytes,hcos,nodeCost]
      omega
    rw [chargeNode,hg.kinds,if_neg hmem,hsum]
    simp only [isSome_none,Bool.false_eq_true,if_false,bind_ok,rejectIf_ok,
      checkedSum_ok,pure_ok,hg.size]
    constructor
    · rintro ⟨_,hcou,sum,⟨hsaf,hsum⟩,_,hlim,hbyt⟩
      subst hsum hbyt
      exact ⟨rfl,.inr ⟨by omega,by omega,hsaf⟩⟩
    · rintro ⟨hbyt,hfit⟩
      subst hbyt
      rcases hfit with h | ⟨hcou,hlim,hsaf⟩
      · exact absurd h hmem
      · exact ⟨(),by omega,_,⟨hsaf,rfl⟩,(),by omega,rfl⟩

theorem fits_insert (hN : Fits nfc limits entries initial names) :
    Fits nfc limits entries initial (insert name names) ↔
      ((∀ e ∈ entries, unicodeCollisionKey nfc e.name=unicodeCollisionKey nfc name →
          e.name=name) ∧
        ∀ n ∈ names, unicodeCollisionKey nfc n=unicodeCollisionKey nfc name → n=name) ∧
      (name ∈ names ∨ (names.card+1≤limits.maxFilesystemEntries ∧
        graphBytes nfc entries initial (insert name names)≤limits.maxPathTableBytes ∧
        graphBytes nfc entries initial (insert name names)≤MAX_SAFE_INTEGER)) := by
  have hsel : name ∈ insert name names := Finset.mem_insert_self name names
  constructor
  · intro h
    refine ⟨⟨?_,?_⟩,?_⟩
    · intro e he hkey
      exact h.explicit name hsel e he hkey
    · intro n hn hkey
      exact h.distinct n (Finset.mem_insert_of_mem hn) name hsel hkey
    · by_cases hmem : name ∈ names
      · exact .inl hmem
      · have hcou:=h.count
        rw [Finset.card_insert_of_notMem hmem] at hcou
        exact .inr ⟨hcou,h.bytes ⟨name,hsel⟩⟩
  · intro ⟨⟨hexp,hdis⟩,hsiz⟩
    by_cases hmem : name ∈ names
    · rwa [Finset.insert_eq_of_mem hmem]
    · obtain ⟨hcou,hbyt⟩ := hsiz.resolve_left hmem
      refine ⟨?_,?_,?_,fun _ => hbyt⟩
      · intro n hn e he hkey
        rcases Finset.mem_insert.1 hn with rfl | hn
        · exact hexp e he hkey
        · exact hN.explicit n hn e he hkey
      · intro n hn m hm hkey
        rcases Finset.mem_insert.1 hn with hnam | hold
        · rcases Finset.mem_insert.1 hm with hnam' | hold'
          · rw [hnam,hnam']
          · rw [hnam] at hkey
            rw [hnam,hdis m hold' hkey.symm]
        · rcases Finset.mem_insert.1 hm with hnam' | hold'
          · rw [hnam'] at hkey
            rw [hnam',hdis n hold hkey]
          · exact hN.distinct n hold m hold' hkey
      · rw [Finset.card_insert_of_notMem hmem]
        exact hcou

theorem graphOf_insert (hg : GraphOf nfc entries initial g names)
    (hdis : ∀ n ∈ names, unicodeCollisionKey nfc n=unicodeCollisionKey nfc name → n=name) :
    GraphOf nfc entries initial
      { filesystemEntries := mapSet name (kindOf entries name) g.filesystemEntries
        filesystemCanonicalNames :=
          mapSet (unicodeCollisionKey nfc name) name g.filesystemCanonicalNames
        pathTableBytes := graphBytes nfc entries initial (insert name names) }
      (insert name names) where
  kinds n := by
    rw [lookup_mapSet,hg.kinds]
    by_cases hn : n=name
    · simp [hn]
    · simp [hn]
  size := by
    rw [length_mapSet,hg.kinds,hg.size]
    by_cases hmem : name ∈ names
    · simp [hmem]
    · simp [hmem]
  canonical key n := by
    rw [lookup_mapSet]
    by_cases hkey : key=unicodeCollisionKey nfc name
    · rw [if_pos hkey]
      constructor
      · intro h
        cases h
        exact ⟨Finset.mem_insert_self name names,hkey.symm⟩
      · intro ⟨hn,hn'⟩
        rcases Finset.mem_insert.1 hn with rfl | hn
        · rfl
        · rw [hdis n hn (hn'.trans hkey)]
    · rw [if_neg hkey,hg.canonical]
      constructor
      · intro ⟨hn,hn'⟩
        exact ⟨Finset.mem_insert_of_mem hn,hn'⟩
      · intro ⟨hn,hn'⟩
        rcases Finset.mem_insert.1 hn with rfl | hn
        · exact absurd hn'.symm hkey
        · exact ⟨hn,hn'⟩
  bytes := rfl

section
variable (hkeys : (entryKeys nfc entries).Nodup)
include hkeys

theorem addFilesystemEntry_gathers (name : String) (hg : GraphOf nfc entries initial g names)
    (hN : Fits nfc limits entries initial names) :
    ((∃ g', addFilesystemEntry nfc limits entries g name (kindOf entries name)
        (!hasEntry entries name)=.ok g') ↔
      Fits nfc limits entries initial (insert name names)) ∧
    ∀ g', addFilesystemEntry nfc limits entries g name (kindOf entries name)
        (!hasEntry entries name)=.ok g' →
      GraphOf nfc entries initial g' (insert name names) := by
  simp only [addFilesystemEntry,bind_ok,rejectIf_ok,pure_ok,Bool.not_eq_true,
    isSome_eq_false_iff,isNone_iff_eq_none,collidingName_none hkeys hg,
    chargeNode_ok hg,fits_insert hN]
  constructor
  · constructor
    · rintro ⟨_,_,hcol,bytes,⟨hbyt,hsiz⟩,_⟩
      subst hbyt
      exact ⟨hcol,hsiz⟩
    · rintro ⟨hcol,hsiz⟩
      exact ⟨_,(),hcol,_,⟨rfl,hsiz⟩,rfl⟩
  · rintro g' ⟨_,hcol,bytes,⟨hbyt,_⟩,hg'⟩
    subst hbyt hg'
    exact graphOf_insert hg hcol.2

theorem beneathNonDirectory_false :
    beneathNonDirectory nfc entries ancestor=false ↔ ∀ d ∈ entries,
      unicodeCollisionKey nfc d.name=unicodeCollisionKey nfc ancestor → d.kind=.directory := by
  unfold beneathNonDirectory
  constructor
  · intro h d hd hkey
    rw [(entryByKey_iff hkeys).2 ⟨hd,hkey⟩] at h
    simpa using h
  · intro h
    cases hfin : entryByKey nfc entries (unicodeCollisionKey nfc ancestor) with
    | none => rfl
    | some d =>
      obtain ⟨hd,hkey⟩ := entryByKey_mem hfin
      simpa using h d hd hkey

theorem kindOf_ancestor (h : beneathNonDirectory nfc entries ancestor=false) :
    kindOf entries ancestor=.directory := by
  cases hfin : entries.find? (·.name=ancestor) with
  | none => simp [kindOf,hfin]
  | some d =>
    have hnam : d.name=ancestor := by simpa using find?_some hfin
    have hkin:=(beneathNonDirectory_false hkeys).1 h d (mem_of_find?_eq_some hfin)
      (by rw [hnam])
    simpa [kindOf,hfin] using hkin

theorem addAncestor_gathers (hg : GraphOf nfc entries initial g names) (hN : Fits nfc limits entries initial names) :
    ((∃ g', addAncestor nfc limits entries name g ancestor=.ok g') ↔
      beneathNonDirectory nfc entries ancestor=false ∧
        Fits nfc limits entries initial (names ∪ [ancestor].toFinset)) ∧
    ∀ g', addAncestor nfc limits entries name g ancestor=.ok g' →
      GraphOf nfc entries initial g' (names ∪ [ancestor].toFinset) := by
  have hnam : names ∪ [ancestor].toFinset=insert ancestor names := by
    rw [toFinset_cons,toFinset_nil,Finset.union_insert,Finset.union_empty]
  have hadd:=addFilesystemEntry_gathers hkeys ancestor hg hN
  rw [hnam]
  by_cases hben : beneathNonDirectory nfc entries ancestor=false
  · rw [kindOf_ancestor hkeys hben] at hadd
    simp only [addAncestor,bind_ok,rejectIf_ok,hben,Bool.false_eq_true,not_false_eq_true,
      true_and,exists_const]
    exact hadd
  · simp [addAncestor,hben]

end

/-- The names an entry puts into the graph. -/
def entryNames (e : SafeArchiveEntry) : List String :=
  (if e.name = "" then [] else [e.name])++properAncestors e.name

def DirectoriesAbove (nfc : String → String) (entries : List SafeArchiveEntry)
    (e : SafeArchiveEntry) : Prop :=
  ∀ a ∈ properAncestors e.name, beneathNonDirectory nfc entries a=false

theorem ancestors_gather (hkeys : (entryKeys nfc entries).Nodup) (hg : GraphOf nfc entries initial g names)
    (hN : Fits nfc limits entries initial names) :
    ((∃ g', (properAncestors e.name).foldlM (addAncestor nfc limits entries e.name) g=.ok g') ↔
      DirectoriesAbove nfc entries e ∧ Fits nfc limits entries initial
        (names ∪ ((properAncestors e.name).flatMap fun a => [a]).toFinset)) ∧
    ∀ g', (properAncestors e.name).foldlM (addAncestor nfc limits entries e.name) g=.ok g' →
      GraphOf nfc entries initial g'
        (names ∪ ((properAncestors e.name).flatMap fun a => [a]).toFinset) := by
  apply foldlM_gathers (GraphOf nfc entries initial) (Fits nfc limits entries initial)
    (fun a => [a]) (fun a => beneathNonDirectory nfc entries a=false)
  · exact fun _ _ => Fits.subset
  · exact fun _ _ _ _ hg hN => addAncestor_gathers hkeys hg hN
  · exact hg
  · exact hN

theorem addEntryNodes_gathers (hkeys : (entryKeys nfc entries).Nodup) (he : e ∈ entries)
    (hg : GraphOf nfc entries initial g names) (hN : Fits nfc limits entries initial names) :
    ((∃ g', addEntryNodes nfc limits entries g e=.ok g') ↔
      DirectoriesAbove nfc entries e ∧
        Fits nfc limits entries initial (names ∪ (entryNames e).toFinset)) ∧
    ∀ g', addEntryNodes nfc limits entries g e=.ok g' →
      GraphOf nfc entries initial g' (names ∪ (entryNames e).toFinset) := by
  by_cases hroo : e.name = ""
  · have hnam : entryNames e=(properAncestors e.name).flatMap fun a => [a] := by
      simp [entryNames,hroo]
    have hnod : addEntryNodes nfc limits entries g e =
        (properAncestors e.name).foldlM (addAncestor nfc limits entries e.name) g := by
      rw [addEntryNodes,if_pos hroo]
      rfl
    rw [hnod,hnam]
    exact ancestors_gather hkeys hg hN
  · have hnam : names ∪ (entryNames e).toFinset=insert e.name names ∪
        ((properAncestors e.name).flatMap fun a => [a]).toFinset := by
      rw [entryNames,if_neg hroo,toFinset_append,← Finset.union_assoc,
        toFinset_cons,toFinset_nil,Finset.union_insert,Finset.union_empty,
        flatMap_singleton']
    have hexp : hasEntry entries e.name=true := hasEntry_iff.2 ⟨e,he,rfl⟩
    have hadd:=addFilesystemEntry_gathers hkeys e.name hg hN
    rw [kindOf_entry hkeys he,hexp,Bool.not_true] at hadd
    have hnod (g' : Graph) : addEntryNodes nfc limits entries g e=.ok g' ↔ ∃ between,
        addFilesystemEntry nfc limits entries g e.name e.kind false=.ok between ∧
        (properAncestors e.name).foldlM (addAncestor nfc limits entries e.name) between =
          .ok g' := by
      rw [addEntryNodes,if_neg hroo,bind_ok]
    simp only [hnod,hnam]
    constructor
    · constructor
      · intro ⟨g',between,hfir,hres⟩
        have hfit:=hadd.1.1 ⟨between,hfir⟩
        exact (ancestors_gather hkeys (hadd.2 between hfir) hfit).1.1 ⟨g',hres⟩
      · intro ⟨habo,hfit⟩
        have hfirstFits:=hfit.subset Finset.subset_union_left
        obtain ⟨between,hfir⟩ := hadd.1.2 hfirstFits
        obtain ⟨g',hres⟩ := (ancestors_gather hkeys (hadd.2 between hfir) hfirstFits).1.2 ⟨habo,hfit⟩
        exact ⟨g',between,hfir,hres⟩
    · intro g' ⟨between,hfir,hres⟩
      have hfit:=hadd.1.1 ⟨between,hfir⟩
      exact (ancestors_gather hkeys (hadd.2 between hfir) hfit).2 g' hres

/-- All names of the filesystem graph. -/
def treeNames (entries : List SafeArchiveEntry) : Finset String :=
  (entries.flatMap entryNames).toFinset

theorem graph_ok (hkeys : (entryKeys nfc entries).Nodup) :
    ((∃ g, entries.foldlM (addEntryNodes nfc limits entries) ⟨[],[],initial⟩=.ok g) ↔
      (∀ e ∈ entries, DirectoriesAbove nfc entries e) ∧
        Fits nfc limits entries initial (treeNames entries)) ∧
    ∀ g, entries.foldlM (addEntryNodes nfc limits entries) ⟨[],[],initial⟩=.ok g →
      GraphOf nfc entries initial g (treeNames entries) := by
  have h:=foldlM_gathers (GraphOf nfc entries initial) (Fits nfc limits entries initial)
    entryNames (DirectoriesAbove nfc entries) (fun _ _ => Fits.subset)
    (fun g names e he hg hN => addEntryNodes_gathers hkeys he hg hN) graphOf_empty fits_empty
  rw [Finset.empty_union] at h
  exact h

variable {entries' : List SafeArchiveEntry}

theorem kindOf_perm (hper : entries.Perm entries')
    (hkeys : (entryKeys nfc entries).Nodup) (ancestor : String) :
    beneathNonDirectory nfc entries' ancestor=beneathNonDirectory nfc entries ancestor := by
  rw [beneathNonDirectory,beneathNonDirectory,entryByKey_perm hper hkeys]

theorem treeNames_perm (hper : entries.Perm entries') :
    treeNames entries'=treeNames entries :=
  toFinset_eq_of_perm _ _ (hper.symm.flatMap_right _)

theorem Fits.perm
    (hper : entries.Perm entries') (h : Fits nfc limits entries initial names) :
    Fits nfc limits entries' initial names := by
  have hcos : nodeCost nfc entries'=nodeCost nfc entries := by
    funext name
    rw [nodeCost,nodeCost,hasEntry_perm hper]
  have hbyt : graphBytes nfc entries' initial names=graphBytes nfc entries initial names := by
    rw [graphBytes,graphBytes,hcos]
  refine ⟨?_,h.distinct,h.count,?_⟩
  · intro n hn e he
    exact h.explicit n hn e (hper.mem_iff.2 he)
  · rw [hbyt]
    exact h.bytes

theorem graph_perm (hper : entries.Perm entries')
    (hkeys : (entryKeys nfc entries).Nodup)
    (h : entries.foldlM (addEntryNodes nfc limits entries) ⟨[],[],initial⟩=.ok g) :
    ∃ g', entries'.foldlM (addEntryNodes nfc limits entries') ⟨[],[],initial⟩=.ok g' := by
  obtain ⟨habo,hfit⟩ := (graph_ok hkeys).1.1 ⟨g,h⟩
  have hkeys' : (entryKeys nfc entries').Nodup := (hper.map _).nodup_iff.1 hkeys
  apply (graph_ok hkeys').1.2
  constructor
  · intro e he a ha
    rw [kindOf_perm hper hkeys]
    exact habo e (hper.mem_iff.2 he) a ha
  · rw [treeNames_perm hper]
    exact hfit.perm hper

end tree

end Qubicl.Cli.BackupArchive
