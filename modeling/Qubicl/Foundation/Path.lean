import Mathlib.Data.List.Basic
import Mathlib.Logic.Relation

/-!
# Slash-separated paths

Splitting a path into its components and joining them again, and the resolution
of a path in a tree that has symbolic links.
-/

namespace Qubicl.Foundation
open List

/-- The parts of a path between its slashes; the empty path has one empty part. -/
def splitSlash (path : String) : List String := (path.toList.splitOn '/').map String.ofList

def joinSlash (components : List String) : String := "/".intercalate components

theorem joinSlash_toList (components : List String) :
    (joinSlash components).toList=['/'].intercalate (components.map String.toList) :=
  String.toList_intercalate

@[simp] theorem joinSlash_splitSlash (path : String) : joinSlash (splitSlash path)=path := by
  apply String.ext
  have hpar : (splitSlash path).map String.toList=path.toList.splitOn '/' := by
    simp [splitSlash,Function.comp_def]
  rw [joinSlash_toList,hpar,intercalate_splitOn]

theorem splitSlash_joinSlash {components : List String} (hne : components≠[])
    (hsla : ∀ c ∈ components, '/' ∉ c.toList) :
    splitSlash (joinSlash components)=components := by
  have hspl : (['/'].intercalate (components.map String.toList)).splitOn '/' =
      components.map String.toList := by
    apply splitOn_intercalate '/'
    · simpa using hsla
    · simpa using hne
  rw [splitSlash,joinSlash_toList,hspl]
  simp [Function.comp_def]

theorem splitOn_no_separator {α : Type*} [BEq α] [LawfulBEq α] {a : α} {xs part : List α}
    (h : part ∈ xs.splitOn a) : a ∉ part := by
  induction xs generalizing part with
  | nil => simp_all
  | cons x xs ih =>
    rw [splitOn_cons_eq_if_modifyHead] at h
    split at h
    case isTrue hx =>
      rcases mem_cons.1 h with rfl | h
      · simp
      · exact ih h
    case isFalse hx =>
      cases hs : xs.splitOn a with
      | nil => exact absurd hs (List.splitOn_ne_nil a xs)
      | cons first rest =>
        rw [hs,modifyHead_cons] at h
        have hfir : a ∉ first := ih (by simp [hs])
        rcases mem_cons.1 h with rfl | h
        · have hne : a≠x := fun hax => hx (by simp [hax])
          simp [hne,hfir]
        · exact ih (by simp [hs,h])

theorem slash_not_mem_of_mem_splitSlash {path c : String} (h : c ∈ splitSlash path) :
    '/' ∉ c.toList := by
  obtain ⟨part,hpar,rfl⟩ := mem_map.1 h
  simpa using splitOn_no_separator hpar

theorem splitSlash_ne_nil (path : String) : splitSlash path≠[] := by
  simp [splitSlash]

theorem splitSlash_injective : Function.Injective splitSlash := by
  intro a b h
  rw [← joinSlash_splitSlash a,h,joinSlash_splitSlash]

theorem joinSlash_append {xs ys : List String} (hx : xs≠[]) (hy : ys≠[]) :
    joinSlash (xs++ys)=joinSlash xs ++ "/" ++ joinSlash ys :=
  String.intercalate_append_of_ne_nil hx hy

/-- What stands at a path: a link carries the components of its target; a `foreign`
link leaves the tree for a path that has no meaning in it. -/
inductive PathNode where
  | directory
  | file
  | link (target : List String)
  | foreign
  deriving DecidableEq, Repr

/-- A resolution under way: the directory reached so far, free of links, and the
components still to be walked. -/
structure Walk where
  directory : List String
  pending : List String
  deriving DecidableEq, Repr

/-- One component of a walk.  A missing name, a file and a foreign link end it. -/
inductive WalkStep (tree : List String → Option PathNode) : Walk → Walk → Prop
  | stay {dir rest : List String} {c : String} (h : c = "" ∨ c = ".") :
      WalkStep tree ⟨dir,c::rest⟩ ⟨dir,rest⟩
  | up {dir rest : List String} (h : dir≠[]) :
      WalkStep tree ⟨dir,".." :: rest⟩ ⟨dir.dropLast,rest⟩
  | enter {dir rest : List String} {c : String} (hc : c ≠ "" ∧ c ≠ "." ∧ c ≠ "..")
      (h : tree (dir++[c])=some .directory) :
      WalkStep tree ⟨dir,c::rest⟩ ⟨dir++[c],rest⟩
  | follow {dir rest target : List String} {c : String} (hc : c ≠ "" ∧ c ≠ "." ∧ c ≠ "..")
      (h : tree (dir++[c])=some (.link target)) :
      WalkStep tree ⟨dir,c::rest⟩ ⟨dir,target++rest⟩

/-- The next component asks for the directory above the root. -/
def Walk.AboveRoot (w : Walk) : Prop := w.directory=[] ∧ w.pending.head? = some ".."

/-- No walk from here steps above the root. -/
def Confined (tree : List String → Option PathNode) (w : Walk) : Prop :=
  ∀ w', Relation.ReflTransGen (WalkStep tree) w w' → ¬ w'.AboveRoot

/-- A property that excludes the step above the root and that every step keeps. -/
theorem Confined.of_invariant {tree : List String → Option PathNode} {P : Walk → Prop}
    (hroo : ∀ w, P w → ¬ w.AboveRoot) (hste : ∀ w w', P w → WalkStep tree w w' → P w')
    {w : Walk} (h : P w) : Confined tree w := by
  intro w' hw'
  apply hroo w'
  induction hw' with
  | refl => exact h
  | tail _ hlas ih => exact hste _ _ ih hlas

end Qubicl.Foundation
