import Mathlib.Algebra.Order.BigOperators.Group.Finset
import Qubicl.Cli.BackupArchive.Names

/-!
# What an accepted backup archive looks like

When `collectEntries` and the loop over the filesystem entries succeed, in terms
of the entries as a set, and what the graph then holds.
-/

namespace Qubicl.Cli.BackupArchive
open Qubicl.Foundation List

def sizes (entries : List SafeArchiveEntry) : ℕ := (entries.map (·.size)).sum

def pathTable (nfc : String → String) (entries : List SafeArchiveEntry) : ℕ :=
  (entries.map (pathBytes nfc)).sum

def entryKeys (nfc : String → String) (entries : List SafeArchiveEntry) : List String :=
  entries.map fun e => unicodeCollisionKey nfc e.name

structure Collected (nfc : String → String) (limits : BackupArchiveLimits)
    (entries : List SafeArchiveEntry) : Prop where
  keys : (entryKeys nfc entries).Nodup
  count : entries.length≤limits.maxEntries
  expanded : sizes entries≤limits.maxExpandedBytes ∧ sizes entries≤MAX_SAFE_INTEGER
  paths : pathTable nfc entries≤limits.maxPathTableBytes ∧
    pathTable nfc entries≤MAX_SAFE_INTEGER

variable {key name : String}

section collected

variable {nfc : String → String} {limits : BackupArchiveLimits} {entries : List SafeArchiveEntry}

theorem hasEntry_iff : hasEntry entries name=true ↔ ∃ e ∈ entries, e.name=name := by
  simp [hasEntry]

variable {e : SafeArchiveEntry}

theorem entryByKey_mem (h : entryByKey nfc entries key=some e) :
    e ∈ entries ∧ unicodeCollisionKey nfc e.name=key := by
  refine ⟨mem_of_find?_eq_some h,?_⟩
  simpa using find?_some h

section
variable {e e' : SafeArchiveEntry} (hkeys : (entryKeys nfc entries).Nodup) (he : e ∈ entries) (he' : e' ∈ entries)
include hkeys he he'

theorem eq_of_key
    (h : unicodeCollisionKey nfc e.name=unicodeCollisionKey nfc e'.name) : e=e' :=
  inj_on_of_nodup_map hkeys he he' h

theorem eq_of_name (h : e.name=e'.name) : e=e' :=
  eq_of_key hkeys he he' (by rw [h])

end

theorem entryByKey_iff (hkeys : (entryKeys nfc entries).Nodup) :
    entryByKey nfc entries key=some e ↔
      e ∈ entries ∧ unicodeCollisionKey nfc e.name=key := by
  constructor
  · exact entryByKey_mem
  · intro ⟨he,hkey⟩
    cases hfin : entryByKey nfc entries key with
    | none =>
      have hnon:=find?_eq_none.1 hfin e he
      simp [hkey] at hnon
    | some e' =>
      obtain ⟨he',hkey'⟩ := entryByKey_mem hfin
      rw [eq_of_key hkeys he' he (hkey'.trans hkey.symm)]

variable {entries' : List SafeArchiveEntry}

theorem entryByKey_perm (hper : entries.Perm entries')
    (hkeys : (entryKeys nfc entries).Nodup) (key : String) :
    entryByKey nfc entries' key=entryByKey nfc entries key := by
  have hkeys' : (entryKeys nfc entries').Nodup := (hper.map _).nodup_iff.1 hkeys
  apply Option.ext
  intro e
  rw [entryByKey_iff hkeys,entryByKey_iff hkeys',hper.mem_iff]

theorem hasEntry_perm (hper : entries.Perm entries')
    (name : String) : hasEntry entries' name=hasEntry entries name := by
  rw [Bool.eq_iff_iff,hasEntry_iff,hasEntry_iff]
  simp [hper.mem_iff]

theorem Collected.perm (hper : entries.Perm entries')
    (h : Collected nfc limits entries) : Collected nfc limits entries' := by
  have hsiz : sizes entries'=sizes entries := (hper.map _).sum_nat.symm
  have hpat : pathTable nfc entries'=pathTable nfc entries := (hper.map _).sum_nat.symm
  exact {
    keys := (hper.map _).nodup_iff.1 h.keys
    count := hper.length_eq ▸ h.count
    expanded := by rw [hsiz]; exact h.expanded
    paths := by rw [hpat]; exact h.paths }

theorem rejectCollision_ok {colliding : Option SafeArchiveEntry} {u : Unit} :
    rejectCollision colliding name=.ok u ↔ ∀ e, colliding=some e → e.name=name := by
  cases colliding with
  | none => simp [rejectCollision]
  | some e => simp [rejectCollision]

theorem checkedSum_ok {left right sum : ℕ} :
    checkedSum left right=.ok sum ↔ left+right≤MAX_SAFE_INTEGER ∧ sum=left+right := by
  simp only [checkedSum,bind_ok,rejectIf_ok,pure_ok,Nat.not_lt]
  constructor
  · rintro ⟨_,hle,hsum⟩
    exact ⟨hle,hsum.symm⟩
  · rintro ⟨hle,hsum⟩
    exact ⟨(),hle,hsum.symm⟩

theorem fresh_key_iff :
    (¬ hasEntry entries e.name=true ∧
      ∀ c, entryByKey nfc entries (unicodeCollisionKey nfc e.name)=some c → c.name=e.name) ↔
    unicodeCollisionKey nfc e.name ∉ entryKeys nfc entries := by
  constructor
  · intro ⟨hnew,hcol⟩ hmem
    obtain ⟨c,hc,hkey⟩ := mem_map.1 hmem
    cases hfin : entryByKey nfc entries (unicodeCollisionKey nfc e.name) with
    | none =>
      have hnon:=find?_eq_none.1 hfin c hc
      simp [hkey] at hnon
    | some d =>
      exact hnew (hasEntry_iff.2 ⟨d,(entryByKey_mem hfin).1,hcol d hfin⟩)
  · intro hfre
    constructor
    · intro hold
      obtain ⟨c,hc,hnam⟩ := hasEntry_iff.1 hold
      exact hfre (mem_map.2 ⟨c,hc,by rw [hnam]⟩)
    · intro c hfin
      obtain ⟨hc,hkey⟩ := entryByKey_mem hfin
      exact absurd (mem_map.2 ⟨c,hc,hkey⟩) hfre

theorem addEntry_ok {s s' : Inspection} {raw : ReadEntry} :
    addEntry nfc limits s raw=.ok s' ↔ ∃ e, safeEntry limits raw=.ok e ∧
      unicodeCollisionKey nfc e.name ∉ entryKeys nfc s.entries ∧
      s.entries.length+1≤limits.maxEntries ∧
      (s.expandedBytes+e.size≤limits.maxExpandedBytes ∧
        s.expandedBytes+e.size≤MAX_SAFE_INTEGER) ∧
      (s.pathTableBytes+pathBytes nfc e≤limits.maxPathTableBytes ∧
        s.pathTableBytes+pathBytes nfc e≤MAX_SAFE_INTEGER) ∧
      s'=⟨s.entries++[e],s.expandedBytes+e.size,s.pathTableBytes+pathBytes nfc e⟩ := by
  simp only [addEntry,bind_ok,rejectIf_ok,rejectCollision_ok,checkedSum_ok,pure_ok,
    ← fresh_key_iff]
  constructor
  · rintro ⟨e,he,_,hnew,_,hcol,_,hcou,expanded,⟨hsaf,hexp⟩,_,hexd,
      paths,⟨hsaf',hpat⟩,_,htab,hs'⟩
    subst hexp hpat hs'
    exact ⟨e,he,⟨hnew,hcol⟩,by omega,⟨by omega,hsaf⟩,⟨by omega,hsaf'⟩,rfl⟩
  · rintro ⟨e,he,⟨hnew,hcol⟩,hcou,⟨hexd,hsaf⟩,⟨htab,hsaf'⟩,hs'⟩
    exact ⟨e,he,(),hnew,(),hcol,(),by omega,_,⟨hsaf,rfl⟩,(),by omega,_,
      ⟨hsaf',rfl⟩,(),by omega,hs'.symm⟩

theorem collected_concat :
    Collected nfc limits (entries++[e]) ↔ Collected nfc limits entries ∧
      unicodeCollisionKey nfc e.name ∉ entryKeys nfc entries ∧
      entries.length+1≤limits.maxEntries ∧
      (sizes entries+e.size≤limits.maxExpandedBytes ∧
        sizes entries+e.size≤MAX_SAFE_INTEGER) ∧
      (pathTable nfc entries+pathBytes nfc e≤limits.maxPathTableBytes ∧
        pathTable nfc entries+pathBytes nfc e≤MAX_SAFE_INTEGER) := by
  have hkeys : entryKeys nfc (entries++[e]) =
      entryKeys nfc entries++[unicodeCollisionKey nfc e.name] := by simp [entryKeys]
  have hsiz : sizes (entries++[e])=sizes entries+e.size := by simp [sizes]
  have hpat : pathTable nfc (entries++[e])=pathTable nfc entries+pathBytes nfc e := by
    simp [pathTable]
  have hnod : (entryKeys nfc entries++[unicodeCollisionKey nfc e.name]).Nodup ↔
      (entryKeys nfc entries).Nodup ∧ unicodeCollisionKey nfc e.name ∉ entryKeys nfc entries := by
    rw [← concat_eq_append,nodup_concat,and_comm]
  constructor
  · intro ⟨h1,h2,h3,h4⟩
    rw [hkeys,hnod] at h1
    rw [length_append,length_singleton] at h2
    rw [hsiz] at h3
    rw [hpat] at h4
    exact ⟨⟨h1.1,by omega,by omega,by omega⟩,h1.2,h2,h3,h4⟩
  · intro ⟨h,hfre,h2,h3,h4⟩
    refine ⟨?_,?_,?_,?_⟩
    · rw [hkeys,hnod]
      exact ⟨h.keys,hfre⟩
    · rw [length_append,length_singleton]
      exact h2
    · rw [hsiz]
      exact h3
    · rw [hpat]
      exact h4

theorem forall₂_concat_left {α β : Type*} {R : α → β → Prop} {xs : List α} {x : α} {ys : List β}
    (h : List.Forall₂ R (xs++[x]) ys) :
    ∃ init last, List.Forall₂ R xs init ∧ R x last ∧ ys=init++[last] := by
  induction xs generalizing ys with
  | nil =>
    cases h with
    | cons hx hnil =>
      cases hnil
      exact ⟨[],_,.nil,hx,rfl⟩
  | cons a xs ih =>
    cases h with
    | cons ha hres =>
      obtain ⟨init,last,hini,hlas,rfl⟩ := ih hres
      exact ⟨_::init,last,.cons ha hini,hlas,rfl⟩

theorem collectEntries_ok {raws : List ReadEntry} {s : Inspection} :
    collectEntries nfc limits raws=.ok s ↔
      List.Forall₂ (fun raw e => safeEntry limits raw=.ok e) raws s.entries ∧
      Collected nfc limits s.entries ∧
      s.expandedBytes=sizes s.entries ∧ s.pathTableBytes=pathTable nfc s.entries := by
  induction raws using List.reverseRecOn generalizing s with
  | nil =>
    obtain ⟨entries,expanded,paths⟩ := s
    constructor
    · intro h
      cases h
      exact ⟨.nil,⟨nodup_nil,Nat.zero_le _,⟨Nat.zero_le _,Nat.zero_le _⟩,
        ⟨Nat.zero_le _,Nat.zero_le _⟩⟩,rfl,rfl⟩
    · intro ⟨hall,_,hexd,hpat⟩
      cases hall
      cases hexd
      cases hpat
      rfl
  | append_singleton raws raw ih =>
    have hfol : collectEntries nfc limits (raws++[raw])=.ok s ↔
        ∃ before, collectEntries nfc limits raws=.ok before ∧
          addEntry nfc limits before raw=.ok s := by
      simp [collectEntries,foldlM_append]
    rw [hfol]
    constructor
    · intro ⟨before,hbef,hadd⟩
      obtain ⟨hall,hcod,hexd,hpat⟩ := ih.1 hbef
      obtain ⟨e,he,hfre,hcou,hexp,htab,rfl⟩ := addEntry_ok.1 hadd
      rw [hexd] at hexp
      rw [hpat] at htab
      refine ⟨rel_append hall (.cons he .nil),?_,?_,?_⟩
      · exact collected_concat.2 ⟨hcod,hfre,hcou,hexp,htab⟩
      · simp [sizes,hexd]
      · simp [pathTable,hpat]
    · intro ⟨hall,hcod,hexd,hpat⟩
      obtain ⟨entries,expanded,paths⟩ := s
      obtain ⟨before,last,hbef,hlas,rfl⟩ := forall₂_concat_left hall
      obtain ⟨hcol,hfre,hcou,hexp,htab⟩ := collected_concat.1 hcod
      refine ⟨⟨before,sizes before,pathTable nfc before⟩,ih.2 ⟨hbef,hcol,rfl,rfl⟩,?_⟩
      apply addEntry_ok.2
      refine ⟨last,hlas,hfre,hcou,hexp,htab,?_⟩
      simp only at hexd hpat
      rw [hexd,hpat]
      simp [sizes,pathTable]

end collected

end Qubicl.Cli.BackupArchive
