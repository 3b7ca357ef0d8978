import Mathlib.Data.List.Dedup
import Qubicl.Control.Audit
import Qubicl.Control.Lease.Manager
import Qubicl.Foundation.CodeUnits
import Qubicl.Foundation.Json

/-!
# The audit log of the operator

The records of several files are merged by their time.
-/

namespace Qubicl.Cli.AuditLog
open Foundation Durable Control List

/-- The longest string there is. -/
def maxStringLength : ℕ := 2 ^ 29 - 24

/-- What the number of a file counts for in the sequence. -/
def stride : ℕ := 1000000000

def fitsString (content : List Char) : Bool := decide (utf16Length (String.ofList content) ≤ maxStringLength)

structure AuditRecord (κ : Type) where
  line : List Char
  path : κ
  atTime : String
  sequence : ℕ
  deriving DecidableEq

section
variable {κ : Type} [DecidableEq κ] (localeCompare : String → String → Ordering) (parseJson : List Char → Option Json)

def atOf (line : List Char) : String :=
  match (parseJson line).bind (·.get "at") with
  | some (.string text) => text
  | _ => ""

def lines (files : Files κ Char) (path : κ) : Except String (List (List Char)) :=
  match files path with
  | none => .ok []
  | some content =>
    if fitsString content then .ok (linesOf '\n' content) else .error "Cannot create a string longer than 0x1fffffe8 characters"

def recordsOf (path : κ) (sourceIndex : ℕ) (group : List (List Char)) : List (AuditRecord κ) :=
  group.zipIdx.map fun (line,lineIndex) => ⟨line,path,atOf parseJson line,sourceIndex*stride+lineIndex⟩

def compareRecords (left right : AuditRecord κ) : Ordering :=
  (localeCompare left.atTime right.atTime).then (compare left.sequence right.sequence)

def groupsFrom (files : Files κ Char) : ℕ → List κ → Except String (List (AuditRecord κ))
  | _, [] => .ok []
  | sourceIndex, path::paths => do
    let group ← lines files path
    let rest ← groupsFrom files (sourceIndex+1) paths
    .ok (recordsOf parseJson path sourceIndex group++rest)

def records (paths : List κ) (files : Files κ Char) : Except String (List (AuditRecord κ)) := do
  let groups ← groupsFrom parseJson files 0 paths
  .ok (sorted (compareRecords localeCompare) groups)

def auditShow (paths : List κ) (keep : ℕ) (files : Files κ Char) : Except String (List (List Char)) :=
  if keep<1 ∨ 10000<keep then .error "--keep must be an integer from 1 through 10000."
  else do
    let all ← records localeCompare parseJson paths files
    .ok ((all.rtake keep).map AuditRecord.line)

def distinct (paths : List κ) : List κ := paths.reverse.dedup.reverse

def selected (retained : List (AuditRecord κ)) (path : κ) : List (List Char) :=
  (retained.filter fun record => record.path=path).map AuditRecord.line

def auditPrune (paths : List κ) (keep : ℕ) : Durable (Files κ Char) String Unit := do
  let all ← reads (records localeCompare parseJson paths)
  let retained:=if keep=0 then [] else all.rtake keep
  let found:=distinct (all.map AuditRecord.path)
  let existingSources:=if found.isEmpty then paths.take 1 else found
  forEach existingSources fun path =>
    rewriteFile fitsString "Invalid string length" path (unlines '\n' (selected retained path))

end

def operatorRetainBytes : ℕ := 6*1024*1024

/-- The compaction of `recordCliAudit`. -/
def compactOperatorAudit {κ : Type} [DecidableEq κ] (path : κ) : Durable (Files κ UInt8) String Unit := do
  let data ← Audit.readFile path
  let tail:=data.rtake operatorRetainBytes
  truncate path
  when (decide (Audit.newline ∈ tail)) (appendFile path (tail.drop (tail.idxOf Audit.newline+1)))

theorem wp_compactOperatorAudit {κ : Type} [DecidableEq κ] {files : Files κ UInt8} {path : κ} {data : List UInt8}
    (h : files path=some data) : wp (compactOperatorAudit path) ⟨Audit.Compacting data path,
      fun _ now => now=Function.update files path (some (Audit.retained data)),fun _ _ => False⟩ files := by
  have hkep : Audit.Compacting data path (Function.update files path (some (Audit.retained data))) :=
    .inl fun line hlin => by rwa [Function.update_self,Option.getD_some]
  obtain ⟨tail,htai,hret⟩ : ∃ tail, data.rtake operatorRetainBytes=tail ∧ Audit.retained data =
      if Audit.newline ∈ tail then tail.drop (tail.idxOf Audit.newline+1) else [] := ⟨_,rfl,rfl⟩
  unfold compactOperatorAudit Audit.readFile truncate appendFile
  simp only [wp_bind,wp_reads,wp_write,h,Option.elim_some,Option.map_some,htai]
  refine ⟨.inr (Function.update_self ..),?_⟩
  by_cases hmem : Audit.newline ∈ tail
  · rw [if_pos hmem] at hret
    simpa [when,hmem,hret] using hkep
  · rw [if_neg hmem] at hret
    simp [when,hmem,hret]

section
variable {κ : Type} [DecidableEq κ] {localeCompare : String → String → Ordering} {parseJson : List Char → Option Json}
  {paths : List κ} {files now : Files κ Char} {groups all : List (AuditRecord κ)}

def AuditRecord.entry (record : AuditRecord κ) : κ × List Char := (record.path,record.line)

def entries (paths : List κ) (files : Files κ Char) : List (κ × List Char) :=
  paths.flatMap fun path => (linesOf '\n' ((files path).getD [])).map (path,·)

/- The order of the merged list, without the places of the lines in their files. -/
def entryOrder (localeCompare : String → String → Ordering) (parseJson : List Char → Option Json) (paths : List κ) :
    κ × List Char → κ × List Char → Ordering :=
  compareLex (comparing (fun entry => atOf parseJson entry.2) localeCompare) (comparing (fun entry => paths.idxOf entry.1) compare)

def Readable (files : Files κ Char) (path : κ) : Prop := ∀ content ∈ files path, fitsString content=true

theorem length_le_utf16Length (text : List Char) : text.length≤utf16Length (String.ofList text) := by
  unfold utf16Length
  rw [String.toList_ofList]
  induction text with
  | nil => simp
  | cons c text ih =>
    rw [map_cons,sum_cons,length_cons]
    split <;> omega

omit [DecidableEq κ] in
theorem lines_ok {path : κ} {group : List (List Char)} :
    lines files path=.ok group ↔ Readable files path ∧ group=linesOf '\n' ((files path).getD []) := by
  unfold lines Readable
  cases files path with
  | none => exact ⟨fun h => ⟨fun _ h => (Option.not_mem_none _ h).elim,(Except.ok.inj h).symm⟩,fun h => by rw [h.2]; rfl⟩
  | some content => cases hfit : fitsString content <;> simp [hfit,@eq_comm _ group]

/- No file has so many lines that their numbers run into those of the next file. -/
omit [DecidableEq κ] in
theorem few_lines {path : κ} (h : Readable files path) : (linesOf '\n' ((files path).getD [])).length<stride := by
  have hlin : (linesOf '\n' ((files path).getD [])).length≤_ := length_linesOf_le ((files path).getD [])
  cases hfil : files path with
  | none => exact Nat.succ_pos _
  | some content =>
    have hfit : utf16Length (String.ofList content) ≤ maxStringLength := of_decide_eq_true (h content hfil)
    have hlen:=length_le_utf16Length content
    rw [hfil,Option.getD_some] at hlin
    have hstr : maxStringLength+1<stride := by decide
    rw [Option.getD_some]
    omega

/-- What the groups of the files from `sourceIndex` on are. -/
structure Grouped (parseJson : List Char → Option Json) (paths : List κ) (files : Files κ Char) (sourceIndex : ℕ)
    (groups : List (AuditRecord κ)) : Prop where
  readable : ∀ path ∈ paths, Readable files path
  entries_eq : groups.map AuditRecord.entry=entries paths files
  increasing : groups.Pairwise fun left right => left.sequence<right.sequence
  placed : ∀ record ∈ groups, record.atTime=atOf parseJson record.line ∧
    (sourceIndex+paths.idxOf record.path)*stride≤record.sequence ∧
    record.sequence<(sourceIndex+paths.idxOf record.path+1)*stride

theorem groupsFrom_ok (hnodup : paths.Nodup) {sourceIndex : ℕ} (h : groupsFrom parseJson files sourceIndex paths=.ok groups) :
    Grouped parseJson paths files sourceIndex groups := by
  induction paths generalizing sourceIndex groups with
  | nil =>
    obtain rfl : []=groups := by simpa [groupsFrom] using h
    exact ⟨by simp,rfl,.nil,by simp⟩
  | cons path paths ih =>
    obtain ⟨hfre,hnodup⟩ := nodup_cons.1 hnodup
    rw [groupsFrom] at h
    cases hlin : lines files path with
    | error error =>
      rw [hlin] at h
      cases h
    | ok group =>
      cases hres : groupsFrom parseJson files (sourceIndex+1) paths with
      | error error =>
        rw [hlin,hres] at h
        cases h
      | ok rest =>
        rw [hlin,hres] at h
        obtain rfl : recordsOf parseJson path sourceIndex group++rest=groups := Except.ok.inj h
        obtain ⟨hrea,hgro⟩ := lines_ok.1 hlin
        have hfew:=few_lines hrea
        rw [← hgro] at hfew
        have hres:=ih hnodup hres
        have hfir : ∀ record ∈ recordsOf parseJson path sourceIndex group, record.path=path ∧
            record.atTime=atOf parseJson record.line ∧ sourceIndex*stride≤record.sequence ∧
            record.sequence<(sourceIndex+1)*stride := by
          intro record hrec
          obtain ⟨⟨line,index⟩,hmem,rfl⟩ := mem_map.1 hrec
          have hind:=(mem_zipIdx hmem).2.1
          refine ⟨rfl,rfl,Nat.le_add_right ..,?_⟩
          rw [Nat.succ_mul]
          dsimp only
          omega
        have hlat : ∀ record ∈ rest, (path::paths).idxOf record.path=paths.idxOf record.path+1 := by
          intro record hrec
          have hpat : record.path ∈ paths := by
            have hent : record.entry ∈ entries paths files := hres.entries_eq ▸ mem_map_of_mem hrec
            obtain ⟨other,hoth,hmem⟩ := mem_flatMap.1 hent
            obtain ⟨line,-,heq⟩ := mem_map.1 hmem
            rwa [← (Prod.mk.inj heq).1]
          exact idxOf_cons_ne _ fun heq => hfre (heq ▸ hpat)
        refine ⟨forall_mem_cons.2 ⟨hrea,hres.readable⟩,?_,pairwise_append.2 ⟨?_,hres.increasing,?_⟩,?_⟩
        · rw [map_append,hres.entries_eq]
          unfold entries
          rw [flatMap_cons,← hgro]
          refine congrArg (· ++ _) ?_
          apply ext_getElem <;> simp [recordsOf,AuditRecord.entry]
        · rw [pairwise_iff_getElem]
          intro i j hi hj hij
          simpa [recordsOf] using hij
        · intro left hlef right hrig
          have hbel:=(hfir left hlef).2.2.2
          have habo:=(hres.placed right hrig).2.1
          have hle:=Nat.mul_le_mul_right stride (Nat.le_add_right (sourceIndex+1) (paths.idxOf right.path))
          omega
        · intro record hrec
          rcases mem_append.1 hrec with hmem | hmem
          · obtain ⟨hpat,hat,hlow,hhig⟩ := hfir record hmem
            rw [hpat,idxOf_cons_self]
            exact ⟨hat,hlow,hhig⟩
          · obtain ⟨hat,hlow,hhig⟩ := hres.placed record hmem
            rw [hlat record hmem,← Nat.add_assoc,Nat.add_right_comm]
            exact ⟨hat,hlow,hhig⟩

variable [Std.TransCmp localeCompare]

instance : Std.TransCmp (entryOrder localeCompare parseJson paths) := by
  unfold entryOrder
  infer_instance

theorem sorted_groups (hg : Grouped parseJson paths files 0 groups) : sorted (compareRecords localeCompare) groups =
    sorted (comparing AuditRecord.entry (entryOrder localeCompare parseJson paths)) groups := by
  have hrec : Std.TransCmp (compareRecords (κ := κ) localeCompare) :=
    inferInstanceAs (Std.TransCmp (compareLex (comparing AuditRecord.atTime localeCompare) (comparing AuditRecord.sequence compare)))
  have hseq : (groups.map AuditRecord.sequence).Nodup := pairwise_map.2 (hg.increasing.imp Nat.ne_of_lt)
  have hper:=(sorted_perm (compareRecords localeCompare) groups).trans
    (sorted_perm (comparing AuditRecord.entry (entryOrder localeCompare parseJson paths)) groups).symm
  refine hper.eq_of_pairwise ?_ (pairwise_sorted_isLE groups) ?_
  · intro a b ha hb hab hba
    have heq : compareRecords localeCompare a b=.eq := Std.OrientedCmp.isLE_antisymm hab hba
    have hsam:=Nat.compare_eq_eq.1 (Ordering.then_eq_eq.1 heq).2
    exact inj_on_of_nodup_map hseq (mem_sorted.1 ha) (mem_sorted.1 hb) hsam
  · refine (pairwise_sorted hseq.of_map).imp_of_mem fun {a b} ha hb hpre => ?_
    obtain ⟨hatA,-,hhighA⟩ := hg.placed a (mem_sorted.1 ha)
    obtain ⟨hatB,hlowB,-⟩ := hg.placed b (mem_sorted.1 hb)
    have hfir : localeCompare a.atTime b.atTime=.lt ∨
        localeCompare a.atTime b.atTime=.eq ∧ a.sequence<b.sequence := by
      rw [hatA,hatB]
      rcases hpre with hlt | ⟨heq,hind⟩
      · rcases Ordering.then_eq_lt.1 hlt with hat | ⟨hat,hpat⟩
        · exact .inl hat
        · -- of records of one time, those of an earlier file come first
          have hpat : paths.idxOf a.path<paths.idxOf b.path := Nat.compare_eq_lt.1 hpat
          have hle:=Nat.mul_le_mul_right stride (show paths.idxOf a.path+1≤_ from hpat)
          rw [Nat.zero_add] at hhighA hlowB
          exact .inr ⟨hat,by omega⟩
      · exact .inr ⟨(Ordering.then_eq_eq.1 heq).1,
          pairwise_iff_forall_sublist.1 hg.increasing (sublist_of_idxOf_lt (mem_sorted.1 hb) hind)⟩
    unfold compareRecords
    rcases hfir with hat | ⟨hat,hlt⟩
    · rw [hat]
      rfl
    · rw [hat,Ordering.eq_then,Nat.compare_eq_lt.2 hlt]
      rfl

theorem records_ok (hnodup : paths.Nodup) (h : records localeCompare parseJson paths files=.ok all) :
    (∀ path ∈ paths, Readable files path) ∧
      all.map AuditRecord.entry=sorted (entryOrder localeCompare parseJson paths) (entries paths files) := by
  unfold records at h
  cases hgro : groupsFrom parseJson files 0 paths with
  | error error =>
    rw [hgro] at h
    cases h
  | ok groups =>
    rw [hgro] at h
    obtain rfl : sorted (compareRecords localeCompare) groups=all := Except.ok.inj h
    have hg:=groupsFrom_ok hnodup hgro
    refine ⟨hg.readable,?_⟩
    rw [sorted_groups hg,← hg.entries_eq]
    exact map_insertionSort _ _ _ _ fun _ _ _ _ => Iff.rfl

omit [DecidableEq κ] [Std.TransCmp localeCompare] in
theorem records_of_readable (h : ∀ path ∈ paths, Readable files path) :
    ∃ all, records localeCompare parseJson paths files=.ok all := by
  have hgro : ∀ sourceIndex, ∃ groups, groupsFrom parseJson files sourceIndex paths=.ok groups := by
    induction paths with
    | nil => exact fun _ => ⟨[],rfl⟩
    | cons path paths ih =>
      intro sourceIndex
      obtain ⟨hpat,hres⟩ := forall_mem_cons.1 h
      obtain ⟨rest,hgro⟩ := ih hres (sourceIndex+1)
      rw [groupsFrom,lines_ok.2 ⟨hpat,rfl⟩,hgro]
      exact ⟨_,rfl⟩
  obtain ⟨groups,hgro⟩ := hgro 0
  rw [records,hgro]
  exact ⟨_,rfl⟩

omit [DecidableEq κ] in
theorem mem_entries {path : κ} {line : List Char} :
    (path,line) ∈ entries paths files ↔ path ∈ paths ∧ line ∈ linesOf '\n' ((files path).getD []) := by
  unfold entries
  simp only [mem_flatMap,mem_map,Prod.mk.injEq]
  constructor
  · rintro ⟨_,hpat,_,hlin,rfl,rfl⟩
    exact ⟨hpat,hlin⟩
  · exact fun ⟨hpat,hlin⟩ => ⟨path,hpat,line,hlin,rfl,rfl⟩

omit [DecidableEq κ] in
theorem flatMap_of_nil {f : κ → List (κ × List Char)} {path : κ} (hnodup : paths.Nodup) (hpath : path ∈ paths)
    (hnil : ∀ other ∈ paths, other≠path → f other=[]) : paths.flatMap f=f path := by
  induction paths with
  | nil => cases hpath
  | cons first paths ih =>
    obtain ⟨hfre,hnodup⟩ := nodup_cons.1 hnodup
    obtain ⟨hfir,hres⟩ := forall_mem_cons.1 hnil
    rw [flatMap_cons]
    rcases mem_cons.1 hpath with rfl | hpath
    · rw [flatMap_eq_nil_iff.2 fun other hoth => hres other hoth fun heq => hfre (heq ▸ hoth),append_nil]
    · rw [hfir fun heq => hfre (heq ▸ hpath),nil_append,ih hnodup hpath hres]

theorem sorted_entries {kept : List (κ × List Char)} (hnodup : paths.Nodup) (hmem : ∀ entry ∈ kept, entry.1 ∈ paths)
    (hkep : kept.Pairwise fun a b => (entryOrder localeCompare parseJson paths a b).isLE=true)
    (hnow : ∀ path ∈ paths, linesOf '\n' ((now path).getD [])=(kept.filter fun entry => entry.1=path).map Prod.snd) :
    sorted (entryOrder localeCompare parseJson paths) (entries paths now)=kept := by
  have hens : entries paths now=paths.flatMap fun path => kept.filter fun entry => entry.1=path := by
    unfold entries
    refine flatMap_congr fun path hpat => ?_
    rw [hnow path hpat,map_map]
    refine (map_congr_left fun entry hent => ?_).trans (map_id _)
    exact Prod.ext (of_decide_eq_true (mem_filter.1 hent).2).symm rfl
  refine sorted_eq hkep fun entry => ?_
  have hpat : ∀ other, other.1 ∈ paths → entryOrder localeCompare parseJson paths entry other=.eq → other.1=entry.1 := by
    intro other hoth heq
    exact ((idxOf_inj hoth).1 (Nat.compare_eq_eq.1 (Ordering.then_eq_eq.1 heq).2).symm)
  rw [hens,level,filter_flatMap]
  by_cases hent : entry.1 ∈ paths
  · rw [flatMap_of_nil hnodup hent]
    · rw [filter_filter]
      refine filter_congr fun other hoth => ?_
      cases heq : entryOrder localeCompare parseJson paths entry other <;> simp
      exact hpat other (hmem other hoth) heq
    · intro path _ hne
      refine filter_eq_nil_iff.2 fun other hoth heq => hne ?_
      obtain ⟨hoth,hsam⟩ := mem_filter.1 hoth
      rw [← of_decide_eq_true hsam,hpat other (hmem other hoth) (beq_iff_eq.1 heq)]
  · have hnon : ∀ other ∈ kept, entryOrder localeCompare parseJson paths entry other≠.eq :=
      fun other hoth heq => hent (hpat other (hmem other hoth) heq ▸ hmem other hoth)
    rw [level,filter_eq_nil_iff.2 fun other hoth heq => hnon other hoth (beq_iff_eq.1 heq),flatMap_eq_nil_iff]
    exact fun path _ => filter_eq_nil_iff.2 fun other hoth heq =>
      hnon other (mem_filter.1 hoth).1 (beq_iff_eq.1 heq)

/-- Each record that is retained is in its file, but those of one file that stands truncated. -/
def Kept (retained : List (AuditRecord κ)) (now : Files κ Char) : Prop :=
  ∃ rewriting : Option κ, ∀ record ∈ retained, record.line ∈ linesOf '\n' ((now record.path).getD []) ∨
    rewriting=some record.path ∧ now record.path=some []

def prunedText (retained : List (AuditRecord κ)) (path : κ) : List Char := unlines '\n' (selected retained path)

theorem prunedText_eq_nil {retained : List (AuditRecord κ)} {path : κ} : prunedText retained path=[] ↔ selected retained path=[] := by
  unfold prunedText
  cases selected retained path <;> simp [unlines]

theorem mem_records (hnodup : paths.Nodup) (h : records localeCompare parseJson paths files=.ok all) {record : AuditRecord κ}
    (hrec : record ∈ all) : record.path ∈ paths ∧ record.line ∈ linesOf '\n' ((files record.path).getD []) :=
  mem_entries.1 (mem_sorted.1 ((records_ok hnodup h).2 ▸ mem_map_of_mem hrec))

section Prune
variable (hnodup : paths.Nodup) (h : records localeCompare parseJson paths files=.ok all) {keep : ℕ} {path : κ}

include hnodup h

theorem linesOf_prunedText : linesOf '\n' (prunedText (all.rtake keep) path)=selected (all.rtake keep) path := by
  refine linesOf_unlines fun line hlin => ?_
  obtain ⟨record,hrec,rfl⟩ := mem_map.1 hlin
  exact mem_linesOf (mem_records hnodup h (mem_of_mem_drop (mem_filter.1 hrec).1)).2

theorem kept_of_rewriting (hnow : Rewriting (prunedText (all.rtake keep)) files now) : Kept (all.rtake keep) now := by
  obtain ⟨rewriting,hnow⟩ := hnow
  refine ⟨some rewriting,fun record hrec => ?_⟩
  have hbef:=(mem_records hnodup h (mem_of_mem_drop hrec)).2
  rcases hnow record.path with heq | heq | ⟨hpat,heq⟩
  · rw [heq]
    exact .inl hbef
  · have hsel : record.line ∈ selected (all.rtake keep) record.path :=
      mem_map_of_mem (mem_filter.2 ⟨hrec,by simp⟩)
    have hne : prunedText (all.rtake keep) record.path≠[] := fun hnil =>
      ne_nil_of_mem hsel (prunedText_eq_nil.1 hnil)
    rw [heq,rewritten,if_neg hne,Option.getD_some,linesOf_prunedText hnodup h]
    exact .inl hsel
  · cases hfil : files record.path with
    | none =>
      rw [hfil] at hbef
      simp [linesOf] at hbef
    | some content =>
      rw [hfil] at heq
      exact .inr ⟨by rw [hpat],heq⟩

/- Files without records are not rewritten. -/
theorem lines_pruned {sources : List κ} (hsos : ∀ record ∈ all, record.path ∈ sources)
    (hdon : RewrittenTo fitsString (prunedText (all.rtake keep)) files sources [] now) (hpat : path ∈ paths) :
    linesOf '\n' ((now path).getD [])=selected (all.rtake keep) path ∧ Readable now path := by
  obtain ⟨hrea,hall⟩ := records_ok hnodup h
  rw [Readable,hdon.now_eq path]
  by_cases hsou : path ∈ sources
  · rw [if_pos ⟨hsou,not_mem_nil⟩,rewritten]
    by_cases hnil : prunedText (all.rtake keep) path=[]
    · rw [if_pos hnil,prunedText_eq_nil.1 hnil]
      cases files path <;> simp [linesOf,fitsString,utf16Length]
    · rw [if_neg hnil,Option.getD_some,linesOf_prunedText hnodup h]
      refine ⟨rfl,fun content hmem => ?_⟩
      obtain rfl := Option.mem_some.1 hmem
      exact (hdon.fit path hsou not_mem_nil).resolve_left hnil
  · rw [if_neg fun h => hsou h.1]
    have hnon : ∀ record ∈ all, record.path≠path := fun record hrec heq => hsou (heq ▸ hsos record hrec)
    have hsel : selected (all.rtake keep) path=[] := by
      refine map_eq_nil_iff.2 (filter_eq_nil_iff.2 fun record hrec heq => ?_)
      exact hnon record (mem_of_mem_drop hrec) (of_decide_eq_true heq)
    refine ⟨?_,hrea path hpat⟩
    rw [hsel,eq_nil_iff_forall_not_mem]
    intro line hmem
    have hent : (path,line) ∈ all.map AuditRecord.entry := hall ▸ mem_sorted.2 (mem_entries.2 ⟨hpat,hmem⟩)
    obtain ⟨record,hrec,heq⟩ := mem_map.1 hent
    exact hnon record hrec (Prod.mk.inj heq).1

/-- A cut prune has what it retains but for one file at most; a complete one shows the last records. -/
theorem wp_auditPrune : wp (auditPrune localeCompare parseJson paths keep) ⟨Kept (all.rtake keep),
      fun _ now => ∃ after, records localeCompare parseJson paths now=.ok after ∧
        after.map AuditRecord.line=(all.map AuditRecord.line).rtake keep,
      fun _ now => Kept (all.rtake keep) now⟩ files := by
  have hret : (if keep=0 then [] else all.rtake keep)=all.rtake keep := by
    split
    case isTrue h => rw [h,rtake_zero]
    case isFalse => rfl
  unfold auditPrune
  rw [wp_bind,wp_reads,h]
  dsimp only
  rw [hret]
  generalize hsou : (if (distinct (all.map AuditRecord.path)).isEmpty then paths.take 1
    else distinct (all.map AuditRecord.path))=sources
  have hsourcesNodup : sources.Nodup := by
    rw [← hsou]
    split
    · exact hnodup.sublist (take_sublist _ _)
    · exact nodup_reverse.2 (nodup_dedup _)
  have hsourcesMem : ∀ record ∈ all, record.path ∈ sources := by
    intro record hrec
    have hmem : record.path ∈ distinct (all.map AuditRecord.path) :=
      mem_reverse.2 (mem_dedup.2 (mem_reverse.2 (mem_map_of_mem hrec)))
    rw [← hsou,if_neg fun hemp => ne_nil_of_mem hmem (List.isEmpty_iff.1 hemp)]
    exact hmem
  have hkep : ∀ now, Rewriting (prunedText (all.rtake keep)) files now → Kept (all.rtake keep) now := fun _ =>
    kept_of_rewriting hnodup h
  refine (wp_rewriteEach hsourcesNodup).mono hkep (fun _ now hdon => ?_) (fun _ => hkep)
  have hnow : ∀ path ∈ paths, linesOf '\n' ((now path).getD [])=selected (all.rtake keep) path ∧ Readable now path :=
    fun _ => lines_pruned hnodup h hsourcesMem hdon
  obtain ⟨after,haft⟩ : ∃ after, records localeCompare parseJson paths now=.ok after :=
    records_of_readable fun path hpat => (hnow path hpat).2
  refine ⟨after,haft,?_⟩
  have hall:=(records_ok hnodup h).2
  have hpai : ((all.rtake keep).map AuditRecord.entry).Pairwise fun a b =>
      (entryOrder localeCompare parseJson paths a b).isLE=true := by
    rw [List.rtake,map_drop,hall]
    exact (pairwise_sorted_isLE _).sublist (drop_sublist _ _)
  have hmem : ∀ entry ∈ (all.rtake keep).map AuditRecord.entry, entry.1 ∈ paths := by
    intro entry hent
    obtain ⟨record,hrec,rfl⟩ := mem_map.1 hent
    exact (mem_records hnodup h (mem_of_mem_drop hrec)).1
  have hsor : sorted _ (entries paths now)=_ := sorted_entries hnodup hmem hpai fun path hpat => by
    rw [(hnow path hpat).1,selected,filter_map,map_map]
    rfl
  rw [← (records_ok hnodup haft).2] at hsor
  have hlin:=congrArg (List.map Prod.snd) hsor
  rw [map_map,map_map] at hlin
  refine hlin.trans ?_
  rw [List.rtake,List.rtake,map_drop,length_map]
  rfl

end Prune
end

def oneRecord : Files String Char := fun path => if path = "audit.jsonl" then some "{}\n".toList else none

def oneRecordAll : List (AuditRecord String) := [⟨"{}".toList,"audit.jsonl","",0⟩]

end Qubicl.Cli.AuditLog
