import Qubicl.Foundation.Path

/-!
# Absolute paths

`resolve` and `relative` of POSIX paths, for paths that are absolute, and paths whose components are names.
-/

namespace Qubicl.Foundation.Posix
open List

/- Empty components and dots are left out, two dots take a component back. -/
def normalStep (done : List String) (component : String) : List String :=
  if component = "" ∨ component = "." then done
  else if component = ".." then done.dropLast
  else done++[component]

def normalComponents (components : List String) : List String := components.foldl normalStep []

def components (path : String) : List String := normalComponents (splitSlash path)

/-- `resolve`, where the first path is absolute. -/
def resolve (path : String) (more : List String) : String :=
  let joined:=more.foldl (fun path next => if next.toList.head? = some '/' then next else path ++ "/" ++ next) path
  "/" ++ joinSlash (components joined)

def relativeComponents : List String → List String → List String
  | a::origin, b::target =>
    if a=b then relativeComponents origin target else List.replicate (origin.length+1) ".." ++ b::target
  | origin, target => List.replicate origin.length ".." ++ target

/-- `relative`, of two absolute paths. -/
def relative (origin target : String) : String := joinSlash (relativeComponents (components origin) (components target))

/-- `dirname`, of an absolute path that is normal. -/
def dirname (path : String) : String := "/" ++ joinSlash (components path).dropLast

/-- A relative path that leaves the directory it is relative to. -/
def leaves (path : String) : Bool := decide (path = "..") || "../".toList.isPrefixOf path.toList

/-- What a directory can call an entry. -/
def isName (name : String) : Bool :=
  decide (name ≠ "") && decide (name ≠ ".") && decide (name ≠ "..") && !name.toList.contains '/' && !name.toList.contains '\x00'

structure CanonicalPath where
  names : List String
  named : ∀ name ∈ names, isName name=true

namespace CanonicalPath

def text (path : CanonicalPath) : String := "/" ++ joinSlash path.names

end CanonicalPath

structure Name (name : String) : Prop where
  nonempty : name ≠ ""
  dot : name ≠ "."
  dots : name ≠ ".."
  slash : '/' ∉ name.toList
  null : '\x00' ∉ name.toList

theorem name_of_isName {name : String} (h : isName name=true) : Name name := by
  simp only [isName,Bool.and_eq_true,decide_eq_true_eq,Bool.not_eq_true',contains_eq_mem,decide_eq_false_iff_not] at h
  obtain ⟨⟨⟨⟨hemp,hdot⟩,hdos⟩,hsla⟩,hnul⟩ := h
  exact ⟨hemp,hdot,hdos,hsla,hnul⟩

theorem Name.step {name : String} (h : Name name) (done : List String) : normalStep done name=done++[name] := by
  rw [normalStep,if_neg (by simp [h.nonempty,h.dot]),if_neg h.dots]

variable {names : List String}

theorem foldl_normalStep (h : ∀ name ∈ names, Name name) (done : List String) :
    names.foldl normalStep done=done++names := by
  induction names generalizing done with
  | nil => simp
  | cons name rest ih =>
    rw [foldl_cons,(h name mem_cons_self).step,ih fun other hoth => h other (mem_cons_of_mem _ hoth),
      append_assoc]
    rfl

theorem splitSlash_append (path next : String) : splitSlash (path ++ "/" ++ next)=splitSlash path++splitSlash next := by
  have hjoi : joinSlash (splitSlash path++splitSlash next)=path ++ "/" ++ next := by
    rw [joinSlash_append (splitSlash_ne_nil path) (splitSlash_ne_nil next),joinSlash_splitSlash,joinSlash_splitSlash]
  rw [← hjoi,splitSlash_joinSlash]
  · exact append_ne_nil_of_left_ne_nil (splitSlash_ne_nil path) _
  · intro c hc
    rcases mem_append.1 hc with hc | hc
    · exact slash_not_mem_of_mem_splitSlash hc
    · exact slash_not_mem_of_mem_splitSlash hc

theorem splitSlash_name {name : String} (h : '/' ∉ name.toList) : splitSlash name=[name] := by
  have hjoi : joinSlash [name]=name := String.intercalate_singleton
  conv => lhs; rw [← hjoi]
  exact splitSlash_joinSlash (cons_ne_nil _ _) (by simpa using h)

theorem components_append {name : String} (h : Name name) (path : String) :
    components (path ++ "/" ++ name)=components path++[name] := by
  rw [components,splitSlash_append,splitSlash_name h.slash,normalComponents,foldl_append,foldl_cons,h.step]
  rfl

theorem components_slash (path : String) : components ("/" ++ path)=components path := by
  have hsla : "/" ++ path = "" ++ "/" ++ path := by simp
  have hemp : splitSlash "" = [""] := splitSlash_name (by simp)
  rw [hsla,components,splitSlash_append,hemp]
  rfl

theorem components_joinSlash (h : ∀ name ∈ names, Name name) : components (joinSlash names)=names := by
  cases names with
  | nil => decide
  | cons name rest =>
    rw [components,splitSlash_joinSlash (cons_ne_nil _ _) fun other hoth => (h other hoth).slash,normalComponents,
      foldl_normalStep h,nil_append]

namespace CanonicalPath

theorem name (path : CanonicalPath) {name : String} (h : name ∈ path.names) : Name name := name_of_isName (path.named name h)

@[simp] theorem components_text (path : CanonicalPath) : components path.text=path.names := by
  rw [text,components_slash,components_joinSlash fun name hnam => path.name hnam]

end CanonicalPath

theorem resolve_names (path : CanonicalPath) (h : ∀ name ∈ names, Name name) :
    resolve path.text names = "/" ++ joinSlash (path.names++names) := by
  have hfol : ∀ start, components (names.foldl
      (fun path next => if next.toList.head? = some '/' then next else path ++ "/" ++ next) start)=components start++names := by
    intro start
    induction names generalizing start with
    | nil => simp
    | cons name rest ih =>
      have hnam:=h name mem_cons_self
      have hhea : name.toList.head? ≠ some '/' := fun hsla => hnam.slash (mem_of_mem_head? hsla)
      rw [foldl_cons,if_neg hhea,ih fun other hoth => h other (mem_cons_of_mem _ hoth),components_append hnam,
        append_assoc]
      rfl
  rw [resolve,hfol,CanonicalPath.components_text]

theorem relativeComponents_spec (origin target : List String) : ∃ common climbed rest,
    origin=common++climbed ∧ target=common++rest ∧
      relativeComponents origin target=List.replicate climbed.length ".." ++ rest := by
  induction origin, target using relativeComponents.induct with
  | case1 origin a target ih =>
    obtain ⟨common,climbed,rest,hori,htar,hrel⟩ := ih
    refine ⟨a::common,climbed,rest,?_,?_,?_⟩
    · rw [hori,cons_append]
    · rw [htar,cons_append]
    · rw [relativeComponents,if_pos rfl,hrel]
  | case2 a origin b target hne =>
    refine ⟨[],a::origin,b::target,rfl,rfl,?_⟩
    rw [relativeComponents,if_neg hne,length_cons]
  | case3 origin target hne =>
    refine ⟨[],origin,target,rfl,rfl,?_⟩
    cases origin with
    | nil =>
      cases target with
      | nil => rfl
      | cons b target => rfl
    | cons a origin =>
      cases target with
      | nil => rfl
      | cons b target => exact absurd rfl (hne a origin b target rfl)

theorem leaves_climb (rest : List String) : leaves (joinSlash (".." :: rest))=true := by
  cases rest with
  | nil => decide
  | cons next rest =>
    have hjoi : joinSlash (".." :: next::rest) = "../" ++ joinSlash (next::rest) :=
      joinSlash_append (cons_ne_nil ".." []) (cons_ne_nil next rest)
    rw [leaves,hjoi,String.toList_append, isPrefixOf_iff_prefix.2 (prefix_append _ _),Bool.or_true]

theorem relative_below {origin target : CanonicalPath} (h : leaves (relative origin.text target.text)=false) :
    ∃ rest, target.names=origin.names++rest ∧ relative origin.text target.text=joinSlash rest := by
  obtain ⟨common,climbed,rest,hori,htar,hrel⟩ := relativeComponents_spec origin.names target.names
  have htex : relative origin.text target.text=joinSlash (List.replicate climbed.length ".." ++ rest) := by
    rw [relative,CanonicalPath.components_text,CanonicalPath.components_text,hrel]
  cases climbed with
  | nil =>
    refine ⟨rest,?_,htex⟩
    rw [hori,htar,append_nil]
  | cons climb climbed =>
    rw [htex,length_cons,replicate_succ,cons_append,leaves_climb] at h
    cases h

end Qubicl.Foundation.Posix
