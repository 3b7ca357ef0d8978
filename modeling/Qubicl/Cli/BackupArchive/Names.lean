import Mathlib.Data.List.TakeWhile
import Qubicl.Cli.BackupArchive.Graph

/-!
# Canonical names of a backup archive

What `canonicalArchivePath` and `safeEntry` let through: names that are joined from
plain components, and the link fields that belong to the kind of the entry.
-/

namespace Qubicl.Cli.BackupArchive
open Qubicl.Foundation List

/-- A component that names an entry of a directory. -/
def PlainName (c : String) : Prop := c ≠ "" ∧ c ≠ "." ∧ c ≠ ".." ∧ '/' ∉ c.toList

def CanonicalName (name : String) : Prop :=
  (∀ c ∈ nameComponents name, PlainName c) ∧ joinSlash (nameComponents name)=name

@[simp] theorem joinSlash_nil : joinSlash [] = "" := rfl

@[simp] theorem nameComponents_empty : nameComponents "" = [] := by decide

variable {cs : List String}

theorem nameComponents_joinSlash (h : ∀ c ∈ cs, PlainName c) :
    nameComponents (joinSlash cs)=cs := by
  by_cases hcs : cs=[]
  · subst hcs
    exact nameComponents_empty
  · have hspl:=splitSlash_joinSlash hcs fun c hc => (h c hc).2.2.2
    rw [nameComponents,hspl,filter_eq_self]
    intro c hc
    simpa using (h c hc).1

theorem canonicalName_joinSlash (h : ∀ c ∈ cs, PlainName c) :
    CanonicalName (joinSlash cs) := by
  have hcs:=nameComponents_joinSlash h
  exact ⟨by rwa [hcs],by rw [hcs]⟩

variable {name : String}

theorem nameComponents_eq_nil (h : CanonicalName name) :
    nameComponents name=[] ↔ name = "" := by
  constructor
  · intro hnil
    rw [← h.2,hnil,joinSlash_nil]
  · intro hnam
    rw [hnam,nameComponents_empty]

theorem splitSlash_of_canonical (h : CanonicalName name) (hne : name ≠ "") :
    splitSlash name=nameComponents name := by
  have hcs : nameComponents name≠[] := fun hnil => hne ((nameComponents_eq_nil h).1 hnil)
  rw [← splitSlash_joinSlash hcs fun c hc => (h.1 c hc).2.2.2,h.2]

theorem canonicalName_take (h : CanonicalName name) (n : ℕ) :
    CanonicalName (joinSlash ((nameComponents name).take n)) :=
  canonicalName_joinSlash fun c hc => h.1 c (mem_of_mem_take hc)

variable {raw last : String}

theorem canonicalComponents_plain {parts components : List String} (hpar : ∀ c ∈ parts, '/' ∉ c.toList)
    (h : canonicalComponents raw parts=.ok components) : ∀ c ∈ components, PlainName c := by
  induction parts generalizing components with
  | nil =>
    cases h
    simp
  | cons part rest ih =>
    have hres : ∀ c ∈ rest, '/' ∉ c.toList := fun c hc => hpar c (mem_cons_of_mem _ hc)
    rw [canonicalComponents] at h
    split at h
    · exact ih hres h
    · next hski =>
      simp only [bind_ok,rejectIf_ok,pure_ok] at h
      obtain ⟨_,htra,tail,htai,rfl⟩ := h
      intro c hc
      rcases mem_cons.1 hc with rfl | hc
      · exact ⟨fun he => hski (.inl he),fun hd => hski (.inr hd),htra,
          hpar c mem_cons_self⟩
      · exact ih hres htai c hc

variable {limits : BackupArchiveLimits}

theorem canonicalArchivePath_canonical {allowRoot : Bool} (h : canonicalArchivePath limits raw allowRoot=.ok name) :
    CanonicalName name := by
  simp only [canonicalArchivePath,bind_ok,pure_ok] at h
  obtain ⟨_,_,_,_,_,_,_,_,components,hcom,_,_,_,_,rfl⟩ := h
  apply canonicalName_joinSlash
  exact canonicalComponents_plain (fun c hc => slash_not_mem_of_mem_splitSlash hc) hcom

theorem dropWhile_append_cons {α : Type*} {p : α → Bool} {xs ys : List α} {a : α}
    (hxs : ∀ x ∈ xs, p x=true) (ha : p a=false) :
    (xs++a::ys).dropWhile p=a::ys := by
  rw [dropWhile_append_of_pos hxs,dropWhile_cons_of_neg (by simp [ha])]

theorem toList_ne_nil {c : String} (h : c ≠ "") : c.toList≠[] := by
  intro hnil
  apply h
  apply String.ext
  simpa using hnil

theorem posixDirname_append {dir : String} (hdir : dir ≠ "") (hroo : dir.toList.head? ≠ some '/') (hlas : last ≠ "")
    (hsla : '/' ∉ last.toList) : posixDirname (dir ++ "/" ++ last)=dir := by
  obtain ⟨first,rest,hfir⟩ := exists_cons_of_ne_nil (toList_ne_nil hdir)
  have hcha : (dir ++ "/" ++ last).toList=first::(rest ++ '/' :: last.toList) := by
    simp [hfir]
  have hne : first ≠ '/' := fun he => hroo (by simp [hfir,he])
  have hrev : (rest ++ '/' :: last.toList).reverse =
      last.toList.reverse ++ '/' :: rest.reverse := by simp
  have htra : (last.toList.reverse ++ '/' :: rest.reverse).dropWhile (· = '/') =
      last.toList.reverse ++ '/' :: rest.reverse := by
    obtain ⟨a,as,ha⟩ := exists_cons_of_ne_nil
      (reverse_eq_nil_iff.not.2 (toList_ne_nil hlas))
    have hmem : a ∈ last.toList := by
      rw [← mem_reverse,ha]
      exact mem_cons_self
    have hsla' : a ≠ '/' := fun he => hsla (he ▸ hmem)
    rw [ha,cons_append,dropWhile_cons_of_neg (by simpa using hsla')]
  have hnam : (last.toList.reverse ++ '/' :: rest.reverse).dropWhile (· ≠ '/') =
      '/' :: rest.reverse := by
    apply dropWhile_append_cons
    · intro x hx
      have hx' : x ≠ '/' := fun he => hsla (he ▸ mem_reverse.1 hx)
      simpa using hx'
    · simp
  rw [posixDirname,hcha]
  simp only [hrev,htra,hnam]
  rw [if_neg (fun h => hne h.1),reverse_reverse,← hfir,String.ofList_toList]

theorem posixDirname_single (hlas : last ≠ "") (hsla : '/' ∉ last.toList) : posixDirname last = "." := by
  obtain ⟨first,rest,hfir⟩ := exists_cons_of_ne_nil (toList_ne_nil hlas)
  have hall : ∀ x ∈ last.toList, x ≠ '/' := fun x hx he => hsla (he ▸ hx)
  rw [hfir] at hall
  have hne : first ≠ '/' := hall first mem_cons_self
  have hemp : (rest.reverse.dropWhile (· = '/')).dropWhile (· ≠ '/')=[] := by
    apply dropWhile_eq_nil_iff.2
    intro x hx
    have hmem : x ∈ rest := mem_reverse.1 ((dropWhile_sublist _).subset hx)
    simpa using hall x (mem_cons_of_mem _ hmem)
  rw [posixDirname,hfir]
  simp only [hemp,hne,if_false]

theorem joinSlash_head (h : ∀ c ∈ cs, PlainName c) :
    (joinSlash cs).toList.head? ≠ some '/' := by
  cases cs with
  | nil => simp
  | cons c rest =>
    have hc:=h c mem_cons_self
    obtain ⟨a,as,ha⟩ := exists_cons_of_ne_nil (toList_ne_nil hc.1)
    have hne : a ≠ '/' := by
      intro he
      apply hc.2.2.2
      rw [ha,he]
      exact mem_cons_self
    rw [joinSlash_toList]
    cases rest with
    | nil => simp [ha,hne]
    | cons d rest => simp [intercalate_cons_cons,ha,hne]

theorem joinSlash_ne_empty (h : ∀ c ∈ cs, PlainName c) (hne : cs≠[]) :
    joinSlash cs ≠ "" := by
  intro hemp
  have hcs:=nameComponents_joinSlash h
  rw [hemp,nameComponents_empty] at hcs
  exact hne hcs.symm

theorem nameComponents_dirname (h : CanonicalName name) (hne : name ≠ "") :
    nameComponents (dirnameArchivePath name)=(nameComponents name).dropLast := by
  have hcs : nameComponents name≠[] := fun hnil => hne ((nameComponents_eq_nil h).1 hnil)
  obtain ⟨dir,last,hpar⟩ : ∃ dir last, nameComponents name=dir++[last] :=
    ⟨_,_,(dropLast_append_getLast hcs).symm⟩
  have hpla:=h.1
  rw [hpar] at hpla
  have hlas : PlainName last := hpla last (by simp)
  have hdirPlain : ∀ c ∈ dir, PlainName c := fun c hc => hpla c (by simp [hc])
  have hnam : name=joinSlash (dir++[last]) := by rw [← hpar,h.2]
  rw [hpar,dropLast_concat]
  by_cases hdir : dir=[]
  · subst hdir
    have hsin : name=last := by rw [hnam]; exact String.intercalate_singleton
    rw [dirnameArchivePath,hsin,posixDirname_single hlas.1 hlas.2.2.2]
    exact nameComponents_empty
  · have hjoi : name=joinSlash dir ++ "/" ++ last := by
      rw [hnam,joinSlash_append hdir (by simp)]
      rfl
    have hdie:=posixDirname_append (joinSlash_ne_empty hdirPlain hdir)
      (joinSlash_head hdirPlain) hlas.1 hlas.2.2.2
    have hdot : joinSlash dir ≠ "." := by
      intro hdot
      have hcom:=nameComponents_joinSlash hdirPlain
      have hsin : nameComponents "." = ["."] := by decide
      rw [hdot,hsin] at hcom
      exact (hdirPlain "." (by simp [← hcom])).2.1 rfl
    rw [dirnameArchivePath,hjoi,hdie,if_neg hdot,nameComponents_joinSlash hdirPlain]

/-- What every checked entry looks like. -/
structure EntryShape (e : SafeArchiveEntry) : Prop where
  name : CanonicalName e.name
  root : e.name = "" → e.kind=.directory
  linkTarget : e.kind=.hardlink → ∃ target, e.linkTarget=some target
  linkpath : e.kind=.symlink → ∃ linkpath, e.linkpath=some linkpath

theorem linkFields_shape {raw : ReadEntry}
    {kind : ArchiveEntryKind} {fields : Option String × Option String}
    (h : linkFields limits raw name kind=.ok fields) :
    (kind=.hardlink → ∃ target, fields.2=some target) ∧
      (kind=.symlink → ∃ linkpath, fields.1=some linkpath) := by
  cases kind with
  | directory => exact ⟨by simp,by simp⟩
  | file => exact ⟨by simp,by simp⟩
  | hardlink =>
    simp only [linkFields,bind_ok,pure_ok] at h
    obtain ⟨_,_,target,_,rfl⟩ := h
    exact ⟨fun _ => ⟨target,rfl⟩,by simp⟩
  | symlink =>
    simp only [linkFields,bind_ok,pure_ok] at h
    obtain ⟨linkpath,_,rfl⟩ := h
    exact ⟨by simp,fun _ => ⟨linkpath,rfl⟩⟩

theorem safeEntry_shape {raw : ReadEntry} {e : SafeArchiveEntry}
    (h : safeEntry limits raw=.ok e) : EntryShape e := by
  simp only [safeEntry,bind_ok,rejectIf_ok,pure_ok] at h
  obtain ⟨kind,_,name,hnam,_,hroo,size,_,_,_,_,_,mode,_,_,_,fields,hfie,rfl⟩ := h
  have hlin:=linkFields_shape hfie
  exact {
    name := canonicalArchivePath_canonical hnam
    root := fun hemp => by
      by_contra hkin
      exact hroo ⟨hemp,hkin⟩
    linkTarget := hlin.1
    linkpath := hlin.2 }

end Qubicl.Cli.BackupArchive
