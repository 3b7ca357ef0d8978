import Qubicl.Cli.Skills.Package

/-!
# What a digest says about a package

Paths never contain a NUL byte. Where files do not either, the bytes of a digest can be read in one way only; a binary file
that does can be read as several files.
-/

namespace Qubicl.Cli.Skills
open Foundation List

section Visit
variable {ignorePythonCaches : Bool} {pre : String} {t t' : Traversal} {child : FileName × Node}

/- Besides a file, only a directory is remembered. -/
inductive Visited (pre : String) (child : FileName × Node) (t : Traversal) : Traversal → Prop
  | skipped : Visited pre child t { t with visited := t.visited+1 }
  | directory (children : List (FileName × Node)) :
      Visited pre child t { t with visited := t.visited+1, pending := (childPath pre child.1,children)::t.pending }
  | file (bytes : List UInt8) (mode links : ℕ) (here : child.2 = .file bytes mode links) (total : ℕ) :
      Visited pre child t { t with
        visited := t.visited+1, total := total, entries := t.entries++[⟨childPath pre child.1,bytes,mode % 512⟩] }

theorem visit_cases (h : visit ignorePythonCaches pre t child=.ok t') :
    t.visited+1 ≤ maxEntries ∧ Visited pre child t t' := by
  unfold visit at h
  simp only at h
  split at h
  · cases h
  next hroo =>
    refine ⟨by omega,?_⟩
    split at h
    · cases h
      exact .skipped
    split at h
    · cases h
    split at h
    · cases h
    split at h
    · cases h
    · cases h
      exact .directory _
    · cases h
    next bytes mode links hfil =>
      split at h
      · cases h
      split at h
      · cases h
        exact .skipped
      split at h
      · cases h
      split at h
      · cases h
      split at h
      · cases h
      split at h
      · cases h
      · cases h
        exact .file bytes mode links hfil _

theorem foldlM_visit {P : Traversal → Prop} {children : List (FileName × Node)}
    (hste : ∀ t child t', child ∈ children → P t → visit ignorePythonCaches pre t child=.ok t' → P t')
    (h : children.foldlM (visit ignorePythonCaches pre) t=.ok t') (ht : P t) : P t' := by
  induction children generalizing t with
  | nil =>
    cases h
    exact ht
  | cons child rest ih =>
    rw [foldlM_cons] at h
    cases hfir : visit ignorePythonCaches pre t child with
    | error error =>
      rw [hfir] at h
      cases h
    | ok t₁ =>
      rw [hfir] at h
      exact ih (fun t child t' hmem => hste t child t' (mem_cons_of_mem _ hmem)) h
        (hste t child t₁ mem_cons_self ht hfir)

end Visit

section Walk
variable {localeCompare : String → String → Ordering} {ignorePythonCaches : Bool}

/- Nothing in the list of pending directories or in the entries has a NUL byte in its path. -/
def PlainPath (path : String) : Prop := ∀ c ∈ path.toList, c≠Char.ofNat 0

theorem childPath_plain {pre : String} (h : PlainPath pre) (name : FileName) : PlainPath (childPath pre name) := by
  unfold childPath
  split
  · exact fun c hc => (name.plain c hc).2
  · intro c hc
    rw [String.toList_append,String.toList_append,mem_append,mem_append] at hc
    rcases hc with (hc | hc) | hc
    · exact h c hc
    · have hsla : c = '/' := by simpa using hc
      rw [hsla]
      decide
    · exact (name.plain c hc).2

def PlainPaths (t : Traversal) : Prop :=
  (∀ entry ∈ t.entries, PlainPath entry.path) ∧ ∀ directory ∈ t.pending, PlainPath directory.1

theorem walk_plain {fuel : ℕ} {t : Traversal} {entries : List PackageEntry} (ht : PlainPaths t)
    (h : walk localeCompare ignorePythonCaches fuel t=.ok entries) : ∀ entry ∈ entries, PlainPath entry.path := by
  induction fuel generalizing t with
  | zero =>
    cases h
    exact ht.1
  | succ fuel ih =>
    unfold walk at h
    split at h
    · cases h
      exact ht.1
    next pre children rest hpen =>
      have hpre : PlainPath pre := ht.2 (pre,children) (by rw [hpen]; exact mem_cons_self)
      split at h
      · cases h
      next t' hfol =>
        refine ih ?_ h
        refine foldlM_visit ?_ hfol ⟨ht.1,fun directory hmem => ht.2 directory (by rw [hpen]; exact mem_cons_of_mem _ hmem)⟩
        rintro t child t' - hpla hvis
        obtain ⟨-,hvid⟩ := visit_cases hvis
        cases hvid with
        | skipped => exact hpla
        | directory children =>
          refine ⟨hpla.1,fun directory hmem => ?_⟩
          rcases mem_cons.1 hmem with rfl | hold
          · exact childPath_plain hpre child.1
          · exact hpla.2 directory hold
        | file bytes mode links here total =>
          refine ⟨fun entry hmem => ?_,hpla.2⟩
          rcases mem_append.1 hmem with hold | hnew
          · exact hpla.1 entry hold
          · rw [mem_singleton.1 hnew]
            exact childPath_plain hpre child.1

theorem enumeratePackage_plain {root : Node} {entries : List PackageEntry}
    (h : enumeratePackage localeCompare root ignorePythonCaches=.ok entries) : ∀ entry ∈ entries, PlainPath entry.path := by
  unfold enumeratePackage at h
  split at h
  swap
  · cases h
  next children =>
    have hroo : PlainPaths ⟨0,0,[],[("",children)]⟩ := by
      refine ⟨fun entry hmem => (by cases hmem),fun directory hmem => ?_⟩
      rw [mem_singleton.1 hmem]
      exact fun c hc => by cases hc
    cases hwal : walk localeCompare ignorePythonCaches (maxEntries+2) ⟨0,0,[],[("",children)]⟩ with
    | error error =>
      rw [hwal] at h
      cases h
    | ok found =>
      rw [hwal] at h
      cases h
      exact fun entry hmem => walk_plain hroo hwal entry (mem_sorted.1 hmem)

end Walk

/-- No file of the package has a NUL byte. -/
def NulFree (entries : List PackageEntry) : Prop := ∀ entry ∈ entries, (0 : UInt8) ∉ entry.bytes

instance (entries : List PackageEntry) : Decidable (NulFree entries) := inferInstanceAs (Decidable (∀ _ ∈ _, _))

theorem zero_not_mem_encode {path : String} (h : PlainPath path) : (0 : UInt8) ∉ Utf8.encode path := by
  intro hmem
  obtain ⟨c,hc,hzer⟩ := Utf8.mem_encodeChars hmem (by decide)
  refine h c hc ?_
  rw [← Char.ofNat_toNat c,hzer]
  rfl

theorem encode_injective {left right : String} (h : Utf8.encode left=Utf8.encode right) : left=right := by
  rw [← Utf8.decode_encode left,h,Utf8.decode_encode]

/- Where one file ends and the next begins is not written in the bytes of a digest. -/
def sizes (entries : List PackageEntry) : List ℕ := entries.map fun entry => entry.bytes.length

def SameCuts (entries entries' : List PackageEntry) : Prop := flat entries=flat entries' → sizes entries=sizes entries'

theorem sizes_eq (entries : List PackageEntry) : sizes entries=(contents entries).map fun file => file.2.length := by
  unfold sizes contents
  rw [map_map]
  rfl

@[simp] theorem flat_cons (entry : PackageEntry) (rest : List PackageEntry) :
    flat (entry::rest)=Utf8.encode entry.path++0::(entry.bytes++0::flat rest) := by
  unfold flat
  rw [flatMap_cons,append_assoc,cons_append,append_assoc,singleton_append]

theorem flat_eq_nil {entries : List PackageEntry} (h : flat entries=[]) : entries=[] := by
  cases entries with
  | nil => rfl
  | cons entry rest => simp at h

section Decoding
variable {entries entries' : List PackageEntry} (hpaths : ∀ entry ∈ entries, PlainPath entry.path)
  (hpaths' : ∀ entry ∈ entries', PlainPath entry.path)
include hpaths hpaths'

/-- Where the files have the same sizes, the bytes of the digest give back the package. -/
theorem contents_of_flat (hsiz : sizes entries=sizes entries') (h : flat entries=flat entries') :
    contents entries=contents entries' := by
  induction entries generalizing entries' with
  | nil => rw [flat_eq_nil h.symm]
  | cons entry rest ih =>
    cases entries' with
    | nil => cases hsiz
    | cons entry' rest' =>
      obtain ⟨hsie,hsiz⟩ := List.cons.inj hsiz
      rw [flat_cons,flat_cons] at h
      obtain ⟨hpat,haft⟩ := separator_inj (zero_not_mem_encode (hpaths entry mem_cons_self))
        (zero_not_mem_encode (hpaths' entry' mem_cons_self)) h
      obtain ⟨hbyt,hres⟩ := append_inj haft hsie
      have hmor:=ih (fun e he => hpaths e (mem_cons_of_mem _ he)) (fun e he => hpaths' e (mem_cons_of_mem _ he))
        hsiz (List.cons.inj hres).2
      show (entry.path,entry.bytes)::contents rest=(entry'.path,entry'.bytes)::contents rest'
      rw [encode_injective hpat,hbyt,hmor]

/-- Without NUL bytes in the files there is one way to read the bytes of the digest. -/
theorem sameCuts_of_nulFree (hfre : NulFree entries) (hfre' : NulFree entries') : SameCuts entries entries' := by
  intro h
  induction entries generalizing entries' with
  | nil => rw [flat_eq_nil h.symm]
  | cons entry rest ih =>
    cases entries' with
    | nil => cases flat_eq_nil h
    | cons entry' rest' =>
      rw [flat_cons,flat_cons] at h
      obtain ⟨-,haft⟩ := separator_inj (zero_not_mem_encode (hpaths entry mem_cons_self))
        (zero_not_mem_encode (hpaths' entry' mem_cons_self)) h
      obtain ⟨hbyt,hres⟩ := separator_inj (hfre entry mem_cons_self) (hfre' entry' mem_cons_self) haft
      have hmor:=ih (fun e he => hpaths e (mem_cons_of_mem _ he)) (fun e he => hpaths' e (mem_cons_of_mem _ he))
        (fun e he => hfre e (mem_cons_of_mem _ he)) (fun e he => hfre' e (mem_cons_of_mem _ he)) hres
      show entry.bytes.length::sizes rest=entry'.bytes.length::sizes rest'
      rw [hbyt,hmor]

/-- Equal digests mean equal packages exactly where one sequence of bytes is not cut into files in two ways. -/
theorem contents_of_digest_iff {Digest : Type} {sha256 : List UInt8 → Digest} (hsha : Function.Injective sha256) :
    (sha256 (flat entries)=sha256 (flat entries') → contents entries=contents entries') ↔ SameCuts entries entries' := by
  constructor
  · intro h hfla
    rw [sizes_eq,sizes_eq,h (congrArg sha256 hfla)]
  · intro hcut hdig
    exact contents_of_flat hpaths hpaths' (hcut (hsha hdig)) (hsha hdig)

end Decoding

end Qubicl.Cli.Skills
