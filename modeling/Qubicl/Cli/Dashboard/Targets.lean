import Qubicl.Cli.Dashboard.Requests
import Qubicl.Core.LegacyJournal
import Qubicl.Foundation.Checked
import Qubicl.Foundation.RegexLanguage

/-!
# The reviewed target and the executed one

A request names its target by ID, execution and the commands also by name: they agree
unless something that comes first has the one as the other.
-/

namespace Qubicl.Cli.Dashboard
open Foundation Core List Option

def ManagementRequest.reviewed (request : ManagementRequest) : Identity :=
  match request.operation with
  | .computerRestore => .trashed request.target
  | .backupVerify | .backupRestore => .backup request.target
  | _ => .computer request.target

/- The computer itself goes into the call; the others are given its name. -/
def ManagementOperation.byIdentity : ManagementOperation → Bool
  | .controlRelease | .credentialAdd | .credentialReplace | .credentialRemove | .clientCreate | .clientRotate
  | .clientRevoke | .backupPrune | .computerResources | .processStop | .previewRevoke | .previewShare
  | .previewUnshare => true
  | _ => false

def preceding (computers : List ComputerConfig) (id : String) : List ComputerConfig :=
  computers.takeWhile (·.id≠id)

/-- No computer before the target has the ID of the target as its name, and, where the name of the
target is passed on, none has that as its ID; nothing else in the trash has the ID of the target
as its name or as its ID. -/
def Unshadowed (host : Installation) (request : ManagementRequest) : Prop :=
  match request.operation with
  | .computerRestore => ∀ entry ∈ host.trash, ∀ metadata, entry.metadata=some metadata →
      metadata.name=request.target ∨ metadata.id=request.target → entry.directory=request.target
  | .backupVerify | .backupRestore => True
  | operation => ∀ other ∈ preceding host.computers request.target, other.name≠request.target ∧
      (operation.byIdentity=false → ∀ computer ∈ reviewedComputer host request, other.id≠computer.name)

section First
variable {α : Type} {p : α → Bool} {front rest : List α} {a : α}

theorem find?_first (ha : p a=true) (h : ∀ b ∈ front, p b=false) : (front++a::rest).find? p=some a := by
  rw [find?_append,find?_eq_none.2 (fun b hb => by simp [h b hb]),none_or,
    find?_cons_of_pos ha]

theorem find?_earlier {b : α} (hb : b ∈ front) (hp : p b=true) :
    ∃ c ∈ front, (front++a::rest).find? p=some c := by
  cases hfin : front.find? p with
  | none => exact absurd hp (find?_eq_none.1 hfin b hb)
  | some c =>
    refine ⟨c,mem_of_find?_eq_some hfin,?_⟩
    rw [find?_append,hfin,some_or]

end First

structure Placed (host : Installation) (request : ManagementRequest) (front : List ComputerConfig)
    (computer : ComputerConfig) (rest : List ComputerConfig) : Prop where
  split : host.computers=front++computer::rest
  id : computer.id=request.target
  others : ∀ other ∈ front, other.id≠request.target

variable {name : String} {other : ComputerConfig}

section Resolution
variable {host : Installation} {request : ManagementRequest} {computer : ComputerConfig} {front rest : List ComputerConfig}
  {command : CliCommand}

theorem placed_of_reviewed (h : reviewedComputer host request=some computer) :
    ∃ front rest, Placed host request front computer rest := by
  obtain ⟨hid,front,rest,hspl,hots⟩ := find?_eq_some_iff_append.1 h
  exact ⟨front,rest,hspl,by simpa using hid,fun other hoth => by simpa using hots other hoth⟩

theorem Placed.preceding (h : Placed host request front computer rest) :
    preceding host.computers request.target=front := by
  unfold Dashboard.preceding
  rw [h.split,takeWhile_append_of_pos fun other hoth => by simp [h.others other hoth]]
  simp [h.id]

theorem Placed.found (h : Placed host request front computer rest)
    (hnam : ∀ other ∈ front, other.name≠request.target) :
    (host.computers.find? fun other => decide (other.id=request.target ∨ other.name=request.target)) =
      some computer := by
  rw [h.split]
  exact find?_first (by simp [h.id]) fun other hoth => by simp [h.others other hoth,hnam other hoth]

theorem Placed.mistaken (h : Placed host request front computer rest) (hoth : other ∈ front)
    (hnam : other.name=request.target) :
    ∃ first ∈ front,
      (host.computers.find? fun other => decide (other.id=request.target ∨ other.name=request.target)) =
        some first ∧ first.name=request.target := by
  obtain ⟨first,hfir,hfin⟩ := @find?_earlier _
    (fun other : ComputerConfig => decide (other.id=request.target ∨ other.name=request.target)) front rest computer
    other hoth (by simp [hnam])
  rw [← h.split] at hfin
  refine ⟨first,hfir,hfin,?_⟩
  have hmat:=find?_some hfin
  simp only [decide_eq_true_eq] at hmat
  exact hmat.resolve_left (h.others first hfir)

theorem findComputer_of_find {found : ComputerConfig}
    (h : (host.computers.find? fun other => decide (other.name=name ∨ other.id=name))=some found) :
    findComputer host.computers name=.ok found := by
  unfold findComputer
  rw [h]

theorem Placed.findComputer_name (h : Placed host request front computer rest)
    (hnod : (host.computers.map (·.name)).Nodup) (hids : ∀ other ∈ front, other.id≠computer.name) :
    findComputer host.computers computer.name=.ok computer := by
  apply findComputer_of_find
  rw [h.split] at hnod ⊢
  refine find?_first (by simp) fun other hoth => ?_
  have hnam : other.name≠computer.name := by
    rw [map_append,map_cons,nodup_append] at hnod
    exact hnod.2.2 _ (mem_map_of_mem hoth) _ mem_cons_self
  simp [hnam,hids other hoth]

/- What stands before the target and matches is taken for it. -/
theorem Placed.findComputer_front (h : Placed host request front computer rest) {name : String} {other : ComputerConfig}
    (hoth : other ∈ front) (hmat : other.name=name ∨ other.id=name) :
    ∃ found ∈ front, findComputer host.computers name=.ok found := by
  obtain ⟨found,hfou,hfin⟩ := @find?_earlier _ (fun other : ComputerConfig => decide (other.name=name ∨ other.id=name))
    front rest computer other hoth (by simpa using hmat)
  rw [← h.split] at hfin
  exact ⟨found,hfou,findComputer_of_find hfin⟩

theorem Placed.pruneSource_front (h : Placed host request front computer rest) (hoth : other ∈ front) :
    ∃ found ∈ front, pruneSource host other.id=.ok (some found.id) := by
  obtain ⟨found,hfou,hfin⟩ := @find?_earlier _
    (fun found : ComputerConfig => decide (found.id=other.id ∨ found.name=other.id)) front rest computer other hoth
    (by simp)
  rw [← h.split] at hfin
  refine ⟨found,hfou,?_⟩
  unfold pruneSource
  rw [hfin]

def ManagementOperation.onComputer (operation : ManagementOperation) : Bool :=
  match operation with
  | .computerRestore | .backupVerify | .backupRestore => false
  | _ => true

theorem findTrash_selects : (CliCommand.restoreComputer name).selects host =
    (findTrash host.trash name).map fun metadata => some (.trashed metadata.id) := bind_ok_eq_map _ _

theorem computerOf_some {what : String} (hnam : name ≠ "") : some <$> computerOf host (some name) what =
    (findComputer host.computers name).map fun computer => some (.computer computer.id) := by
  have hreq : required (some name) what=.ok name := if_neg hnam
  unfold computerOf
  rw [hreq]
  cases hfin : findComputer host.computers name with
  | error e => simp [bind,Except.bind,Except.map,hfin,Functor.map]
  | ok => simp [bind,Except.bind,Except.map,hfin,Functor.map]

/-- What a command on a computer acts on, from what execution finds first. -/
theorem execute_selects {first : ComputerConfig} (hexe : executeHostManagementRequest host request=.ok command)
    (hfir : (host.computers.find? fun other => decide (other.id=request.target ∨ other.name=request.target)) =
      some first) (hnam : first.name ≠ "") (hcor : request.operation.onComputer=true) :
    command.selects host =
      if request.operation=.backupPrune then (pruneSource host first.id).map (·.map .computer)
      else if request.operation.byIdentity then .ok (some (.computer first.id))
      else (findComputer host.computers first.name).map fun computer => some (.computer computer.id) := by
  unfold executeHostManagementRequest at hexe
  dsimp only at hexe
  rw [hfir] at hexe
  dsimp only [Option.map,Option.getD,requireManagementComputer] at hexe
  cases hope : request.operation with
  | computerRestore | backupVerify | backupRestore =>
    rw [hope] at hcor
    cases hcor
  | computerStart | computerStop | computerRestart | computerDelete =>
    rw [hope] at hexe
    cases hexe
    exact bind_ok_eq_map _ _
  | computerUpgrade | tokenRotate =>
    rw [hope] at hexe
    cases hexe
    exact computerOf_some hnam
  | checkpointCreate | backupCreate =>
    rw [hope] at hexe
    cases hexe
    exact computerOf_some hnam
  | backupPrune =>
    rw [hope] at hexe
    cases hexe
    rfl
  | controlRelease | credentialAdd | credentialReplace | credentialRemove | clientCreate | clientRotate | clientRevoke
  | computerResources | processStop | previewRevoke | previewShare | previewUnshare =>
    rw [hope] at hexe
    cases hexe
    rfl
  | toolsSet =>
    rw [hope] at hexe
    obtain ⟨ids,-,hres⟩ := bind_ok.1 hexe
    obtain ⟨found,-,hcom⟩ := bind_ok.1 hres
    split at hcom
    next => cases hcom
    next =>
      cases hcom
      exact computerOf_some hnam
  | skillsSet =>
    rw [hope] at hexe
    obtain ⟨ids,-,hcom⟩ := bind_ok.1 hexe
    cases hcom
    exact computerOf_some hnam
  | computerRename =>
    rw [hope] at hexe
    obtain ⟨newName,-,hcom⟩ := bind_ok.1 hexe
    cases hcom
    exact bind_ok_eq_map _ _
  | skillImport | skillReset | skillRemove | skillRestore | networkSet | networkApprove | networkRevoke
  | computerClone =>
    rw [hope] at hexe
    obtain ⟨text,-,hcom⟩ := bind_ok.1 hexe
    cases hcom
    exact computerOf_some hnam
  | skillUpdate =>
    rw [hope] at hexe
    obtain ⟨id,-,hres⟩ := bind_ok.1 hexe
    obtain ⟨url,-,hcom⟩ := bind_ok.1 hres
    cases hcom
    exact computerOf_some hnam

section
variable (h : Placed host request front computer rest)
include h

theorem Placed.mem : computer ∈ host.computers := by
  rw [h.split]
  exact mem_append_right _ mem_cons_self

theorem Placed.mem_front (hoth : other ∈ front) : other ∈ host.computers := by
  rw [h.split]
  exact mem_append_left _ hoth

theorem Placed.selects_target
    (hexe : executeHostManagementRequest host request=.ok command)
    (hcom : request.operation.onComputer=true) (hnod : (host.computers.map (·.name)).Nodup)
    (hnam : ∀ other ∈ host.computers, other.name ≠ "") (hcle : ∀ other ∈ front, other.name≠request.target)
    (hids : request.operation.byIdentity=false → ∀ other ∈ front, other.id≠computer.name) :
    command.selects host=.ok (some (.computer request.target)) := by
  rw [execute_selects hexe (h.found hcle) (hnam computer h.mem) hcom]
  split
  next =>
    unfold pruneSource
    rw [h.id,h.found hcle,← h.id]
    rfl
  next =>
    split
    next => rw [h.id]
    next hnae =>
      rw [h.findComputer_name hnod (hids (Bool.not_eq_true _ ▸ hnae)),← h.id]
      rfl

theorem Placed.selects_front (hexe : executeHostManagementRequest host request=.ok command)
    (hcom : request.operation.onComputer=true) (hnam : ∀ other ∈ host.computers, other.name ≠ "")
    (hoth : other ∈ front)
    (hsha : other.name=request.target ∨ request.operation.byIdentity=false ∧ other.id=computer.name) :
    ∃ found ∈ front, command.selects host=.ok (some (.computer found.id)) := by
  by_cases hcle : ∀ other ∈ front, other.name≠request.target
  · obtain ⟨hname,hid⟩ := hsha.resolve_left (hcle other hoth)
    rw [execute_selects hexe (h.found hcle) (hnam computer h.mem) hcom]
    have hpru : request.operation≠.backupPrune := by
      intro hpru
      rw [hpru] at hname
      cases hname
    rw [if_neg hpru,if_neg (by rw [hname]; exact Bool.false_ne_true)]
    obtain ⟨found,hfou,heq⟩ := h.findComputer_front hoth (Or.inr hid)
    refine ⟨found,hfou,?_⟩
    rw [heq]
    rfl
  · push Not at hcle
    obtain ⟨namesake,hnae,hname⟩ := hcle
    obtain ⟨first,hfir,hfin,hfirstName⟩ := h.mistaken hnae hname
    rw [execute_selects hexe hfin (hnam first (h.mem_front hfir)) hcom]
    split
    next =>
      obtain ⟨found,hfou,heq⟩ := h.pruneSource_front hfir
      refine ⟨found,hfou,?_⟩
      rw [heq]
      rfl
    next =>
      split
      next => exact ⟨first,hfir,rfl⟩
      next =>
        obtain ⟨found,hfou,heq⟩ := @Placed.findComputer_front _ _ _ _ _ h first.name first hfir (Or.inl rfl)
        refine ⟨found,hfou,?_⟩
        rw [heq]
        rfl

theorem Placed.selects_iff
    (hexe : executeHostManagementRequest host request=.ok command)
    (hcom : request.operation.onComputer=true) (hnod : (host.computers.map (·.name)).Nodup)
    (hnam : ∀ other ∈ host.computers, other.name ≠ "") :
    command.selects host=.ok (some (.computer request.target)) ↔
      ∀ other ∈ front, other.name≠request.target ∧
        (request.operation.byIdentity=false → other.id≠computer.name) := by
  constructor
  · intro htar other hoth
    by_contra hsha
    obtain ⟨found,hfou,heq⟩ := h.selects_front hexe hcom hnam hoth (by tauto)
    rw [heq] at htar
    injection htar with hid
    injection hid with hid
    injection hid with hid
    exact h.others found hfou hid
  · intro hall
    exact h.selects_target hexe hcom hnod hnam (fun other hoth => (hall other hoth).1)
      fun hnae other hoth => (hall other hoth).2 hnae

end

theorem findTrash_eq_ok {trash : List TrashEntry} {metadata : ComputerMetadata} :
    findTrash trash name=.ok metadata ↔
      (trash.filterMap TrashEntry.metadata).filter (fun found => decide (found.name=name ∨ found.id=name)) =
        [metadata] := by
  unfold findTrash
  generalize (trash.filterMap TrashEntry.metadata).filter _=found
  match found with
  | [] => simp
  | [other] => simp
  | _::_::_ => simp

theorem filterMap_eq_singleton {α β γ : Type} {key : α → γ} {f : α → Option β} {xs : List α} {a : α} {b : β}
    (hnod : (xs.map key).Nodup) (ha : a ∈ xs) (hb : f a=some b) :
    xs.filterMap f=[b] ↔ ∀ x ∈ xs, (f x).isSome → key x=key a := by
  obtain ⟨front,rest,rfl⟩ := append_of_mem ha
  have hoth : ∀ x, x ∈ front ∨ x ∈ rest → key x≠key a := by
    rw [map_append,map_cons] at hnod
    have hper:=(perm_middle.nodup_iff.1 hnod)
    rw [nodup_cons,mem_append] at hper
    rintro x (hx | hx) heq
    · exact hper.1 (Or.inl (heq ▸ mem_map_of_mem hx))
    · exact hper.1 (Or.inr (heq ▸ mem_map_of_mem hx))
  rw [filterMap_append,filterMap_cons_some hb]
  constructor
  · intro h x hx hsom
    obtain ⟨y,hy⟩ := isSome_iff_exists.1 hsom
    have hlen:=congrArg List.length h
    simp only [length_append,length_cons,length_nil] at hlen
    have hnon : front.filterMap f=[] ∧ rest.filterMap f=[] :=
      ⟨length_eq_zero_iff.1 (by omega),length_eq_zero_iff.1 (by omega)⟩
    rcases mem_append.1 hx with hx | hx
    · have := mem_filterMap.2 ⟨x,hx,hy⟩
      rw [hnon.1] at this
      cases this
    · rcases mem_cons.1 hx with rfl | hx
      · rfl
      · have := mem_filterMap.2 ⟨x,hx,hy⟩
        rw [hnon.2] at this
        cases this
  · intro h
    have hnon : ∀ x, x ∈ front ∨ x ∈ rest → f x=none := by
      intro x hx
      by_contra hsom
      refine hoth x hx (h x ?_ (isSome_iff_ne_none.2 hsom))
      rcases hx with hx | hx
      · exact mem_append_left _ hx
      · exact mem_append_right _ (mem_cons_of_mem _ hx)
    rw [filterMap_eq_nil_iff.2 fun x hx => hnon x (Or.inl hx),
      filterMap_eq_nil_iff.2 fun x hx => hnon x (Or.inr hx),nil_append]

theorem findTrash_target (hpre : (availableTrash host.trash).any (·.id=request.target)=true) :
    (findTrash host.trash request.target).map (fun metadata => some (Identity.trashed metadata.id)) =
        .ok (some (.trashed request.target)) ↔
      ∀ entry ∈ host.trash, ∀ metadata, entry.metadata=some metadata →
        metadata.name=request.target ∨ metadata.id=request.target → entry.directory=request.target := by
  obtain ⟨metadata,hava,hid⟩ := any_eq_true.1 hpre
  simp only [decide_eq_true_eq] at hid
  obtain ⟨entry,hent,hmap⟩ := mem_filterMap.1 hava
  obtain ⟨-,hfil⟩ := ite_none_right_eq_some.1 hmap
  obtain ⟨hmet,hdir⟩ := filter_eq_some_iff.1 hfil
  simp only [decide_eq_true_eq] at hdir
  have hkey : entry.directory=request.target := by rw [← hdir,hid]
  have hmat : (entry.metadata.filter fun found => decide (found.name=request.target ∨ found.id=request.target)) =
      some metadata := by
    rw [hmet,filter_some,if_pos]
    simp [hid]
  have hsin:=@filterMap_eq_singleton _ _ _ TrashEntry.directory
    (fun entry => entry.metadata.filter fun found => decide (found.name=request.target ∨ found.id=request.target))
    host.trash entry metadata host.trash_named hent hmat
  rw [hkey,← filter_filterMap] at hsin
  have hfou : (findTrash host.trash request.target).map (fun metadata => some (Identity.trashed metadata.id)) =
        .ok (some (.trashed request.target)) ↔
      (host.trash.filterMap TrashEntry.metadata).filter
        (fun found => decide (found.name=request.target ∨ found.id=request.target))=[metadata] := by
    rw [← findTrash_eq_ok]
    constructor
    · intro h
      cases hfin : findTrash host.trash request.target with
      | error e =>
        rw [hfin] at h
        cases h
      | ok found =>
        have hlis:=findTrash_eq_ok.1 hfin
        have hmem : metadata ∈ [found] := by
          rw [← hlis]
          exact mem_filter.2 ⟨mem_filterMap.2 ⟨entry,hent,hmet⟩,by simp [hid]⟩
        rw [mem_singleton.1 hmem]
    · intro h
      rw [h,Except.map,hid]
  rw [hfou,hsin]
  constructor
  · intro h other hoth found hfou hsel
    refine h other hoth ?_
    rw [hfou,filter_some,if_pos (by simpa using hsel)]
    rfl
  · intro h other hoth hsom
    obtain ⟨found,hfil⟩ := isSome_iff_exists.1 hsom
    obtain ⟨hfou,hsel⟩ := filter_eq_some_iff.1 hfil
    exact h other hoth found hfou (by simpa using hsel)

/- What is accepted as a target is accepted as the name of a backup. -/
theorem backupNamePattern_of_target {target : String} (h : targetPattern target=true) :
    BackupCreation.backupNamePattern target=true := by
  have hmem:=(Regex.test_iff _ _).1 h
  refine (Regex.test_iff _ _).2 (Regex.mem_oneOrMore_of_forall ?_ fun c hc => ?_)
  · intro hnil
    rw [hnil] at hmem
    obtain ⟨a,ha,b,-,hab⟩ := Regex.mem_seq.1 hmem
    rw [(append_eq_nil_iff.1 hab).1] at ha
    exact absurd ((Regex.nullable_iff _).2 ha) (by decide)
  · have hall:=Regex.allows_of_mem hmem c hc
    simp only [Regex.allows,Bool.or_eq_true] at hall
    have hcla : (Regex.choice [Regex.range 'a' 'z',Regex.range 'A' 'Z',Regex.range '0' '9',
        Regex.oneOf "._-"]).allows c=true := by
      rcases hall with hfir | hrest
      · simp only [Regex.choice,Regex.range,Regex.allows,List.foldr,Bool.or_eq_true] at hfir ⊢
        tauto
      · exact Regex.allows_upTo hrest
    simpa [Regex.choice,Regex.range,Regex.oneOf,Regex.allows] using hcla

theorem backupOf_target (hval : validateTarget request=.ok ()) :
    some <$> backupOf (some request.target)=.ok (some (Identity.backup request.target)) := by
  unfold validateTarget at hval
  split at hval
  next hpat =>
    have hnam:=backupNamePattern_of_target hpat
    have hne : request.target ≠ "" := by
      intro hemp
      rw [hemp] at hnam
      exact absurd hnam (by decide)
    have hreq : required (some request.target) "backup ID" = .ok request.target := if_neg hne
    simp [backupOf,hreq,hnam,bind,Except.bind,Functor.map,Except.map]
  next => cases hval

theorem computer_reviewed (hnod : (host.computers.map (·.name)).Nodup)
    (hnam : ∀ other ∈ host.computers, other.name ≠ "")
    (hpre : (if (reviewedComputer host request).isSome then .ok () else .error "Target computer was not found." :
      Except String Unit)=.ok ())
    (hexe : executeHostManagementRequest host request=.ok command)
    (hcom : request.operation.onComputer=true) :
    command.selects host=.ok (some (.computer request.target)) ↔
      ∀ other ∈ preceding host.computers request.target, other.name≠request.target ∧
        (request.operation.byIdentity=false → ∀ computer ∈ reviewedComputer host request, other.id≠computer.name) := by
  have hrev : (reviewedComputer host request).isSome := by
    by_contra hnon
    rw [if_neg hnon] at hpre
    cases hpre
  obtain ⟨computer,hfou⟩ := isSome_iff_exists.1 hrev
  obtain ⟨front,rest,hpla⟩ := placed_of_reviewed hfou
  rw [hpla.selects_iff hexe hcom hnod hnam,hpla.preceding,hfou]
  simp only [mem_some_iff,forall_eq']

end Resolution

/-- A command acts on what was reviewed exactly where nothing shadows it. -/
theorem executed_target_reviewed {z : Formats} {raw config : QubiclConfig} {host : Installation}
    {request : ManagementRequest} {command : CliCommand}
    (hconfig : (configSchema z stateFormatVersion).parse raw=some config) (hcomputers : host.computers=config.computers)
    (hvalid : validateTarget request=.ok ()) (hpreview : preview host request=.ok ())
    (hexecute : executeHostManagementRequest host request=.ok command) :
    command.selects host=.ok (some request.reviewed) ↔ Unshadowed host request := by
  obtain ⟨hnod,hnam⟩ := configSchema_named z hconfig
  rw [← hcomputers] at hnod hnam
  obtain ⟨operation,target,input⟩ := request
  cases operation with
  | computerRestore =>
    cases hexecute
    have hava : (availableTrash host.trash).any (·.id=target)=true := by
      by_contra hnon
      rw [preview,if_neg hnon] at hpreview
      cases hpreview
    exact findTrash_selects.symm ▸ @findTrash_target host ⟨.computerRestore,target,input⟩ hava
  | backupVerify =>
    cases hexecute
    exact iff_of_true (backupOf_target hvalid) trivial
  | backupRestore =>
    obtain ⟨name,-,hcom⟩ := bind_ok.1 hexecute
    cases hcom
    exact iff_of_true (backupOf_target hvalid) trivial
  | _ => exact computer_reviewed hnod hnam hpreview hexecute rfl

def namesakeId : String := "3f1b9c52-8e6d-4a0f-b1d7-52c4e9a8f603"

def namesake : ComputerConfig := { exampleComputer with id := namesakeId, name := exampleId }

def namesakeConfig (computers : List ComputerConfig) : QubiclConfig := { exampleConfig 5 with computers }

def namesakeHost (computers : List ComputerConfig) : Installation := ⟨computers,[],[],fun _ => [],nodup_nil⟩

def deleteRequest : ManagementRequest := ⟨.computerDelete,exampleId,fun _ => none⟩

/-- Behind its namesake, the computer that was reviewed is deleted. -/
theorem executed_target_reviewed_first : (CliCommand.deleteComputer "main").selects
    (namesakeHost [exampleComputer,namesake])=.ok (some deleteRequest.reviewed) := by
  have hcon : (configSchema exampleFormats stateFormatVersion).parse
      (namesakeConfig [exampleComputer,namesake])=some (namesakeConfig [exampleComputer,namesake]) := by
    decide +kernel
  refine (executed_target_reviewed hcon rfl (by decide) (by decide) (by decide)).2 ?_
  intro other hoth
  have hnon : preceding (namesakeHost [exampleComputer,namesake]).computers deleteRequest.target=[] := by
    decide
  rw [hnon] at hoth
  cases hoth

/-- Before it, the namesake is deleted in its place. -/
theorem namesake_deleted : (configSchema exampleFormats stateFormatVersion).parse
      (namesakeConfig [namesake,exampleComputer])=some (namesakeConfig [namesake,exampleComputer]) ∧
    validateTarget deleteRequest=.ok () ∧
    preview (namesakeHost [namesake,exampleComputer]) deleteRequest=.ok () ∧
    reviewedComputer (namesakeHost [namesake,exampleComputer]) deleteRequest=some exampleComputer ∧
    executeHostManagementRequest (namesakeHost [namesake,exampleComputer]) deleteRequest =
      .ok (.deleteComputer exampleId) ∧
    (CliCommand.deleteComputer exampleId).selects (namesakeHost [namesake,exampleComputer]) =
      .ok (some (.computer namesakeId)) ∧
    deleteRequest.reviewed=.computer exampleId ∧ namesakeId≠exampleId := by
  decide +kernel

end Qubicl.Cli.Dashboard
