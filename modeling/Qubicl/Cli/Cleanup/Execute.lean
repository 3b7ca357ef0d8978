import Qubicl.Cli.Cleanup.Digest

/-!
# Carrying out a reviewed plan (packages/cli/src/cleanup-plan.ts:332-392)

Every call of `replan` sees another inventory.
-/

namespace Qubicl.Cli.Cleanup
open Foundation List

structure CleanupFailure where
  candidate : CleanupCandidate
  detail : String
deriving DecidableEq

structure CleanupExecutionResult where
  removed : List CleanupCandidate
  preserved : List CleanupFailure
  failed : List CleanupFailure
deriving DecidableEq

inductive CleanupEvent
  | replanned (plan : CleanupPlan)
  | removal (candidate : CleanupCandidate)

/-- What the calls of `replan` and of `remove` come to, by the number of the call. -/
structure CleanupExecutionDependencies where
  replan : ℕ → Except String CleanupPlan
  remove : ℕ → CleanupCandidate → Except String Unit

def sameCandidate (left right : CleanupCandidate) : Bool :=
  left.kind=right.kind && left.id=right.id && left.name=right.name && left.validationDigest=right.validationDigest

def CleanupExecutionResult.preserve (result : CleanupExecutionResult) (candidate : CleanupCandidate) : CleanupExecutionResult :=
  { result with preserved := result.preserved ++
      [⟨candidate,"Candidate changed, became referenced/running/current, or disappeared during immediate revalidation."⟩] }

def CleanupExecutionResult.record (result : CleanupExecutionResult) (candidate : CleanupCandidate) :
    Except String Unit → CleanupExecutionResult
  | .ok _ => { result with removed := result.removed++[candidate] }
  | .error detail => { result with failed := result.failed++[⟨candidate,detail⟩] }

section
variable (dependencies : CleanupExecutionDependencies)

/-- The loop over the candidates, before its `n`-th call of `replan`. -/
def executeCandidates : ℕ → List CleanupCandidate → CleanupExecutionResult →
    List CleanupEvent × Except String CleanupExecutionResult
  | _, [], result => ([],.ok result)
  | n, reviewed::rest, result =>
    match dependencies.replan n with
    | .error message => ([],.error message)
    | .ok revalidated =>
      if revalidated.candidates.any (sameCandidate · reviewed) then
        let next:=executeCandidates (n+1) rest (result.record reviewed (dependencies.remove n reviewed))
        (.replanned revalidated::.removal reviewed::next.1,next.2)
      else
        let next:=executeCandidates (n+1) rest (result.preserve reviewed)
        (.replanned revalidated::next.1,next.2)

def executeCleanupPlan (reviewed : CleanupPlan) : List CleanupEvent × Except String CleanupExecutionResult :=
  match dependencies.replan 0 with
  | .error message => ([],.error message)
  | .ok current =>
    if current.reviewDigest≠reviewed.reviewDigest then
      ([.replanned current],
        .error "Cleanup inventory changed after preview; review the new exact candidate list before deletion.")
    else
      let next:=executeCandidates dependencies 1 reviewed.candidates { removed := [], preserved := [], failed := [] }
      (.replanned current::next.1,next.2)

end

theorem sameCandidate_iff {left right : CleanupCandidate} : sameCandidate left right=true ↔ left=right := by
  obtain ⟨kind,id,name,validationDigest⟩ := left
  obtain ⟨kind',id',name',validationDigest'⟩ := right
  simp [sameCandidate,and_assoc]

/-- Every candidate of which the result says something, as often as it does. -/
def CleanupExecutionResult.reported (result : CleanupExecutionResult) : List CleanupCandidate :=
  result.removed++result.preserved.map CleanupFailure.candidate++result.failed.map CleanupFailure.candidate

def CleanupExecutionResult.tried (result : CleanupExecutionResult) : List CleanupCandidate :=
  result.removed++result.failed.map CleanupFailure.candidate

section
variable (result : CleanupExecutionResult) (c : CleanupCandidate)
include result c

theorem reported_preserve :
    (result.preserve c).reported.Perm (c::result.reported) := by
  unfold CleanupExecutionResult.reported CleanupExecutionResult.preserve
  simp only [map_append,map_cons,map_nil,append_assoc]
  exact (perm_middle.append_left result.removed).trans perm_middle

theorem reported_record (outcome : Except String Unit) :
    (result.record c outcome).reported.Perm (c::result.reported) := by
  unfold CleanupExecutionResult.reported
  cases outcome with
  | ok _ =>
    simp only [CleanupExecutionResult.record,append_assoc]
    exact perm_middle
  | error detail =>
    simp only [CleanupExecutionResult.record,map_append,map_cons,map_nil,← append_assoc]
    exact perm_append_singleton c _

theorem tried_record (outcome : Except String Unit) :
    (result.record c outcome).tried.Perm (c::result.tried) := by
  unfold CleanupExecutionResult.tried
  cases outcome with
  | ok _ =>
    simp only [CleanupExecutionResult.record,append_assoc]
    exact perm_middle
  | error detail =>
    simp only [CleanupExecutionResult.record,map_append,map_cons,map_nil,← append_assoc]
    exact perm_append_singleton c _

end

/-- Every removal of a trace follows an inventory that has the candidate. -/
def Fresh (trace : List CleanupEvent) : Prop :=
  ∀ before c after, trace=before++.removal c::after →
    ∃ plan front, before=front++[.replanned plan] ∧ c ∈ plan.candidates

def removals (trace : List CleanupEvent) : List CleanupCandidate :=
  trace.filterMap fun event =>
    match event with
    | .removal c => some c
    | .replanned _ => none

theorem fresh_nil : Fresh [] := by
  intro before c after h
  exact absurd h (by simp)

variable {trace : List CleanupEvent}

theorem fresh_replanned (plan : CleanupPlan) (h : Fresh trace) : Fresh (.replanned plan::trace) := by
  intro before c after hspl
  cases before with
  | nil => cases hspl
  | cons event before =>
    obtain ⟨rfl,htai⟩ := List.cons.inj hspl
    obtain ⟨found,front,rfl,hmem⟩ := h before c after htai
    exact ⟨found,.replanned plan::front,rfl,hmem⟩

theorem fresh_removal {plan : CleanupPlan} {c : CleanupCandidate} (hc : c ∈ plan.candidates) (h : Fresh trace) :
    Fresh (.replanned plan::.removal c::trace) := by
  intro before d after hspl
  cases before with
  | nil => cases hspl
  | cons event before =>
    obtain ⟨rfl,htai⟩ := List.cons.inj hspl
    cases before with
    | nil =>
      obtain ⟨hsam,-⟩ := List.cons.inj htai
      obtain rfl := CleanupEvent.removal.inj hsam
      exact ⟨plan,[],rfl,hc⟩
    | cons event' before =>
      obtain ⟨rfl,hres⟩ := List.cons.inj htai
      obtain ⟨found,front,rfl,hmem⟩ := h before d after hres
      exact ⟨found,.replanned plan::.removal c::front,rfl,hmem⟩

section
variable {dependencies : CleanupExecutionDependencies}

section
variable (candidates : List CleanupCandidate) (n : ℕ)
include candidates n

theorem executeCandidates_fresh (result : CleanupExecutionResult) :
    Fresh (executeCandidates dependencies n candidates result).1 := by
  induction candidates generalizing n result with
  | nil => exact fresh_nil
  | cons reviewed rest ih =>
    rw [executeCandidates]
    cases dependencies.replan n with
    | error message => exact fresh_nil
    | ok revalidated =>
      simp only
      split
      next hfou =>
        obtain ⟨c,hc,hsam⟩ := any_eq_true.1 hfou
        rw [← sameCandidate_iff.1 hsam]
        exact fresh_removal hc (ih _ _)
      next => exact fresh_replanned revalidated (ih _ _)

theorem executeCandidates_removals (result : CleanupExecutionResult) :
    ∀ c ∈ removals (executeCandidates dependencies n candidates result).1, c ∈ candidates := by
  induction candidates generalizing n result with
  | nil =>
    intro c hc
    cases hc
  | cons reviewed rest ih =>
    intro c hc
    rw [executeCandidates] at hc
    cases hpla : dependencies.replan n with
    | error message =>
      rw [hpla] at hc
      cases hc
    | ok revalidated =>
      rw [hpla] at hc
      simp only at hc
      split at hc
      · rcases mem_cons.1 hc with rfl | hc
        · exact mem_cons_self
        · exact mem_cons_of_mem _ (ih _ _ c hc)
      · exact mem_cons_of_mem _ (ih _ _ c hc)

theorem executeCandidates_reported (result final : CleanupExecutionResult)
    (h : (executeCandidates dependencies n candidates result).2 = .ok final) :
    final.reported.Perm (candidates++result.reported) := by
  induction candidates generalizing n result with
  | nil =>
    obtain rfl := Except.ok.inj h
    exact List.Perm.refl _
  | cons reviewed rest ih =>
    rw [executeCandidates] at h
    cases hpla : dependencies.replan n with
    | error message =>
      rw [hpla] at h
      cases h
    | ok revalidated =>
      rw [hpla] at h
      simp only at h
      split at h
      · have hnex:=ih _ _ h
        exact hnex.trans (((reported_record result reviewed _).append_left rest).trans perm_middle)
      · have hnex:=ih _ _ h
        exact hnex.trans (((reported_preserve result reviewed).append_left rest).trans perm_middle)

theorem executeCandidates_tried (result final : CleanupExecutionResult)
    (h : (executeCandidates dependencies n candidates result).2 = .ok final) :
    final.tried.Perm (removals (executeCandidates dependencies n candidates result).1++result.tried) := by
  induction candidates generalizing n result with
  | nil =>
    obtain rfl := Except.ok.inj h
    exact List.Perm.refl _
  | cons reviewed rest ih =>
    rw [executeCandidates] at h ⊢
    cases hpla : dependencies.replan n with
    | error message =>
      rw [hpla] at h
      cases h
    | ok revalidated =>
      rw [hpla] at h
      simp only at h ⊢
      split at h
      next hfou =>
        rw [if_pos hfou]
        have hnex:=ih _ _ h
        exact hnex.trans (((tried_record result reviewed _).append_left _).trans perm_middle)
      next hfou =>
        rw [if_neg hfou]
        exact ih _ _ h

end

theorem executeCleanupPlan_fresh (reviewed : CleanupPlan) : Fresh (executeCleanupPlan dependencies reviewed).1 := by
  unfold executeCleanupPlan
  cases dependencies.replan 0 with
  | error message => exact fresh_nil
  | ok current =>
    simp only
    split
    · exact fresh_replanned current fresh_nil
    · exact fresh_replanned current (executeCandidates_fresh _ _ _)

theorem executeCleanupPlan_removals (reviewed : CleanupPlan) :
    ∀ c ∈ removals (executeCleanupPlan dependencies reviewed).1, c ∈ reviewed.candidates := by
  unfold executeCleanupPlan
  cases dependencies.replan 0 with
  | error message =>
    intro c hc
    cases hc
  | ok current =>
    simp only
    split
    · intro c hc
      cases hc
    · exact executeCandidates_removals _ _ _

theorem executeCleanupPlan_ok {reviewed : CleanupPlan} {result : CleanupExecutionResult}
    (h : (executeCleanupPlan dependencies reviewed).2 = .ok result) :
    result.reported.Perm reviewed.candidates ∧
      result.tried.Perm (removals (executeCleanupPlan dependencies reviewed).1) := by
  unfold executeCleanupPlan at h ⊢
  cases hpla : dependencies.replan 0 with
  | error message =>
    rw [hpla] at h
    cases h
  | ok current =>
    rw [hpla] at h
    simp only at h ⊢
    split at h
    · cases h
    · rename_i hsam
      rw [if_neg hsam]
      have hrep:=executeCandidates_reported _ _ _ _ h
      have htri:=executeCandidates_tried _ _ _ _ h
      rw [show CleanupExecutionResult.reported { removed := [], preserved := [], failed := [] } = [] from rfl,
        append_nil] at hrep
      rw [show CleanupExecutionResult.tried { removed := [], preserved := [], failed := [] } = [] from rfl,
        append_nil] at htri
      exact ⟨hrep,htri⟩

end

section
variable {sha256 : List Char → String} {s s' : CleanupSnapshot} {selection selection' : CleanupSelection}
  {plan plan' : CleanupPlan}

theorem filterMap_map_sublist {α β γ : Type} {f : α → Option β} {g : β → γ} {k : α → γ} (l : List α)
    (h : ∀ a b, f a=some b → g b=k a) : ((l.filterMap f).map g).Sublist (l.map k) := by
  induction l with
  | nil => simp
  | cons a l ih =>
    cases hf : f a with
    | none =>
      rw [filterMap_cons_none hf,map_cons]
      exact ih.cons _
    | some b =>
      rw [filterMap_cons_some hf,map_cons,map_cons,h a b hf]
      exact ih.cons_cons _

theorem candidates_nodup (h : buildCleanupPlan sha256 s selection=.ok plan) : plan.candidates.Nodup := by
  obtain ⟨hval,rfl⟩ := buildCleanupPlan_ok.1 h
  have hsub:=filterMap_map_sublist (g := fun c => c.kind.text ++ "\x00" ++ c.id) (k := itemKey) s.items
    fun item c (hc : candidateOf (cleanupDecision sha256 s selection item)=some c) => by
      rw [(decision_candidate hc).1,(decision_candidate hc).2.1]
      rfl
  have hnod:=((validateSnapshot_nodup hval).sublist hsub).of_map
  exact (sorted_perm compareCandidates _).nodup_iff.2 hnod

theorem mem_candidates (h : buildCleanupPlan sha256 s selection=.ok plan) {c : CleanupCandidate} :
    c ∈ plan.candidates ↔ ∃ item ∈ s.items, cleanupDecision sha256 s selection item=.candidate c := by
  obtain ⟨-,rfl⟩ := buildCleanupPlan_ok.1 h
  unfold planOf
  simp only [mem_sorted,mem_filterMap]
  refine exists_congr fun item => and_congr_right fun _ => ?_
  cases cleanupDecision sha256 s selection item with
  | candidate found => simp [candidateOf]
  | preserved reason detail => simp [candidateOf]

theorem reviewDigest_inj (hsha256 : Function.Injective sha256) (h : buildCleanupPlan sha256 s selection=.ok plan)
    (h' : buildCleanupPlan sha256 s' selection'=.ok plan') (hdig : plan.reviewDigest=plan'.reviewDigest) :
    plan.selection=plan'.selection ∧ plan.candidates=plan'.candidates ∧ plan.preserved=plan'.preserved := by
  obtain ⟨-,rfl⟩ := buildCleanupPlan_ok.1 h
  obtain ⟨-,rfl⟩ := buildCleanupPlan_ok.1 h'
  exact digestInput_inj (hsha256 hdig)

end

def exampleRecord (id : String) (referenced : Bool) : CleanupInventoryItem :=
  .record { evidence := false, id, name := id, «namespace» := "qubicl-runtime", schemaVersion := 1, obsolete := true, referenced }

def exampleSnapshot (items : List CleanupInventoryItem) : CleanupSnapshot :=
  { installationId := "0b9d4d6e-5c0f-4a9b-8c55-0c1e7d0f2a11", projectName := "qubicl", expectedContainers := [],
    expectedNetworks := [], expectedVolumes := [], protectedImageReferences := [], retainedManagedImageReferences := [], items }

end Qubicl.Cli.Cleanup
