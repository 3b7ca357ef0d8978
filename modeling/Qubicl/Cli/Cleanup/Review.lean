import Qubicl.Cli.Cleanup.Plan

/-!
# A plan does not depend on the order of its inventory

The comparisons tell all items of a valid inventory apart, so that a list sorted by them depends on its elements only.
-/

namespace Qubicl.Cli.Cleanup
open Foundation List

structure SameResource (a b : NamedDockerResource) : Prop where
  id : a.id=b.id
  name : a.name=b.name
  labels : a.labels.entries.Perm b.labels.entries

inductive SameItem : CleanupInventoryItem → CleanupInventoryItem → Prop
  | container (a b : CleanupContainer) : SameResource a.toNamedDockerResource b.toNamedDockerResource → a.status=b.status →
      SameItem (.container a) (.container b)
  | network (a b : CleanupNetwork) : SameResource a.toNamedDockerResource b.toNamedDockerResource →
      a.attachedContainers.Perm b.attachedContainers → SameItem (.network a) (.network b)
  | volume (a b : CleanupVolume) : SameResource a.toNamedDockerResource b.toNamedDockerResource →
      a.attachedContainers.Perm b.attachedContainers → a.durableHome=b.durableHome → SameItem (.volume a) (.volume b)
  | image (a b : CleanupImage) : SameResource a.toNamedDockerResource b.toNamedDockerResource →
      a.references.Perm b.references → a.referencedByContainers.Perm b.referencedByContainers → SameItem (.image a) (.image b)
  | record (a : CleanupRecord) : SameItem (.record a) (.record a)

/-- Another order of the items, and of the labels, attachments and references of each. -/
structure Rearranged (s s' : CleanupSnapshot) : Prop where
  rest : s' = { s with items := s'.items }
  items : ∃ items, List.Forall₂ SameItem s.items items ∧ items.Perm s'.items

theorem get_eq_some {labels : Record String} {key value : String} : labels.get key=some value ↔ (key,value) ∈ labels.entries := by
  unfold Record.get
  constructor
  · intro h
    obtain ⟨entry,hfin,rfl⟩ := Option.map_eq_some_iff.1 h
    have hkey : entry.1=key := by simpa using find?_some hfin
    have hmem:=mem_of_find?_eq_some hfin
    rw [← hkey]
    exact hmem
  · intro hmem
    cases hfin : labels.entries.find? fun entry => entry.1=key with
    | none =>
      rw [find?_eq_none] at hfin
      exact absurd (by simp) (hfin _ hmem)
    | some entry =>
      have hkey : entry.1=key := by simpa using find?_some hfin
      have hsam : entry=(key,value) :=
        inj_on_of_nodup_map labels.nodup (mem_of_find?_eq_some hfin) hmem hkey
      rw [hsam]
      rfl

theorem get_perm {a b : Record String} (h : a.entries.Perm b.entries) (key : String) : a.get key=b.get key := by
  apply Option.ext
  intro value
  rw [get_eq_some,get_eq_some,h.mem_iff]

theorem sortedRecord_perm {a b : Record String} (h : a.entries.Perm b.entries) : sortedRecord a=sortedRecord b := by
  refine sorted_eq_of_perm h ?_
  intro entry hent other hoth heq
  exact inj_on_of_nodup_map a.nodup hent hoth (compareText_eq heq)

variable {α β : Type}

theorem compareLex_eq {f g : α → α → Ordering} {a b : α} : compareLex f g a b=.eq ↔ f a b=.eq ∧ g a b=.eq := by
  unfold compareLex
  exact Ordering.then_eq_eq

instance : Std.TransCmp compareAttachments := by
  unfold compareAttachments
  infer_instance

theorem compareAttachments_eq {a b : CleanupAttachment} (h : compareAttachments a b=.eq) : a=b := by
  obtain ⟨hid,hrun⟩ := compareLex_eq.1 h
  have hsam : (if a.running then 1 else 0)=(if b.running then 1 else 0) := Nat.compare_eq_eq.1 hrun
  obtain ⟨id,running⟩ := a
  obtain ⟨id',running'⟩ := b
  obtain rfl : id=id' := compareText_eq hid
  cases running <;> cases running' <;> simp at hsam <;> rfl

theorem attachmentsJson_perm {a b : List CleanupAttachment} (h : a.Perm b) : attachmentsJson a=attachmentsJson b := by
  unfold attachmentsJson
  rw [sorted_eq_of_perm h fun _ _ _ _ => compareAttachments_eq]

section
variable {a b : CleanupInventoryItem}

theorem SameItem.kind (h : SameItem a b) : a.kind=b.kind := by
  cases h <;> rfl

theorem SameItem.id (h : SameItem a b) : a.id=b.id := by
  cases h with
  | container a b hsam _ => exact hsam.id
  | network a b hsam _ => exact hsam.id
  | volume a b hsam _ _ => exact hsam.id
  | image a b hsam _ _ => exact hsam.id
  | record a => rfl

theorem SameItem.name (h : SameItem a b) : a.name=b.name := by
  cases h with
  | container a b hsam _ => exact hsam.name
  | network a b hsam _ => exact hsam.name
  | volume a b hsam _ _ => exact hsam.name
  | image a b hsam _ _ => exact hsam.name
  | record a => rfl

theorem SameItem.key (h : SameItem a b) : itemKey a=itemKey b := by
  unfold itemKey
  rw [h.kind,h.id]

theorem labelsJson_perm {a b : Record String} (h : a.entries.Perm b.entries) : labelsJson a=labelsJson b := by
  unfold labelsJson
  rw [sortedRecord_perm h]

theorem SameItem.evidence (h : SameItem a b) : cleanupEvidence a=cleanupEvidence b := by
  cases h with
  | container a b hsam hsta =>
    simp only [cleanupEvidence]
    rw [hsam.id,hsam.name,labelsJson_perm hsam.labels,hsta]
  | network a b hsam hatt =>
    simp only [cleanupEvidence]
    rw [hsam.id,hsam.name,labelsJson_perm hsam.labels,attachmentsJson_perm hatt]
  | volume a b hsam hatt hdur =>
    simp only [cleanupEvidence]
    rw [hsam.id,hsam.name,labelsJson_perm hsam.labels,attachmentsJson_perm hatt,hdur]
  | image a b hsam href hatt =>
    simp only [cleanupEvidence]
    rw [hsam.id,hsam.name,labelsJson_perm hsam.labels,attachmentsJson_perm hatt,
      sorted_eq_of_perm href fun _ _ _ _ => compareText_eq]
  | record a => rfl

end

section
variable {sha256 : List Char → String} {snapshot : CleanupSnapshot} {selection : CleanupSelection}
  {a b item : CleanupInventoryItem}

theorem SameItem.candidate (h : SameItem a b) : candidate sha256 a=candidate sha256 b := by
  unfold Cleanup.candidate
  rw [h.kind,h.id,h.name,h.evidence]

theorem composeOwnership_same {x y : NamedDockerResource} (h : SameResource x y) (projectName kind : String) :
    verifiedComposeOwnership projectName x kind=verifiedComposeOwnership projectName y kind := by
  unfold verifiedComposeOwnership
  rw [get_perm h.labels,get_perm h.labels,h.name]

theorem imageOwnership_same {x y : CleanupImage} (h : SameResource x.toNamedDockerResource y.toNamedDockerResource) :
    verifiedImageOwnership x=verifiedImageOwnership y := by
  unfold verifiedImageOwnership
  simp only [get_perm h.labels,h.id]

theorem SameItem.decision (h : SameItem a b) :
    cleanupDecision sha256 snapshot selection a=cleanupDecision sha256 snapshot selection b := by
  have hcan : Cleanup.candidate sha256 a=Cleanup.candidate sha256 b := h.candidate
  unfold cleanupDecision
  rw [h.kind]
  congr 3
  cases h with
  | container a b hsam hsta =>
    simp only
    unfold containerDecision verifiedContainerOwnership
    simp only [get_perm hsam.labels,hsam.name,hsta,hcan]
  | network a b hsam hatt =>
    simp only
    unfold networkDecision
    rw [composeOwnership_same hsam,hsam.name,hatt.any_eq,hatt.length_eq,hcan]
  | volume a b hsam hatt hdur =>
    simp only
    unfold volumeDecision
    rw [composeOwnership_same hsam,hsam.name,hatt.any_eq,hatt.length_eq,hdur]
  | image a b hsam href hatt =>
    simp only
    unfold imageDecision
    rw [imageOwnership_same hsam,hsam.id,(href.cons b.id).any_eq,hatt.any_eq,hatt.length_eq]
  | record a => rfl

end

theorem kind_text_injective {a b : CleanupItemKind} (h : a.text=b.text) : a=b := by
  cases a <;> cases b <;> first | rfl | exact absurd h (by decide)

theorem validateItems_ok {items : List CleanupInventoryItem} {keys : List String} :
    validateItems keys items=.ok () ↔
      (∀ item ∈ items, item.id ≠ "" ∧ item.name ≠ "") ∧ (items.map itemKey).Nodup ∧ ∀ item ∈ items, itemKey item ∉ keys := by
  induction items generalizing keys with
  | nil => simp [validateItems]
  | cons item items ih =>
    rw [validateItems]
    split_ifs with hemp hmem
    · refine iff_of_false (by simp) ?_
      rintro ⟨hnam,-,-⟩
      have hite:=hnam item (by simp)
      tauto
    · refine iff_of_false (by simp) ?_
      rintro ⟨-,-,hfre⟩
      exact hfre item (by simp) hmem
    · rw [ih,map_cons,nodup_cons]
      constructor
      · rintro ⟨hnam,hnod,hfre⟩
        refine ⟨?_,⟨?_,hnod⟩,?_⟩
        · simp only [mem_cons,forall_eq_or_imp]
          exact ⟨by tauto,hnam⟩
        · intro hin
          obtain ⟨other,hoth,hkey⟩ := mem_map.1 hin
          exact hfre other hoth (by rw [hkey]; exact mem_cons_self)
        · simp only [mem_cons,forall_eq_or_imp]
          exact ⟨hmem,fun other hoth hin => hfre other hoth (mem_cons_of_mem _ hin)⟩
      · rintro ⟨hnam,⟨hnew,hnod⟩,hfre⟩
        refine ⟨fun other hoth => hnam other (mem_cons_of_mem _ hoth),hnod,?_⟩
        intro other hoth hin
        rcases mem_cons.1 hin with hsam | hin
        · exact hnew (mem_map.2 ⟨other,hoth,hsam⟩)
        · exact hfre other (mem_cons_of_mem _ hoth) hin

section
variable {sha256 : List Char → String} {s s' : CleanupSnapshot} {selection : CleanupSelection} {plan : CleanupPlan}
  {a b item : CleanupInventoryItem}

theorem validateSnapshot_nodup (h : validateSnapshot s=.ok ()) : (s.items.map itemKey).Nodup := by
  unfold validateSnapshot at h
  split_ifs at h
  exact (validateItems_ok.1 h).2.1

theorem forall₂_map_eq {items items' : List CleanupInventoryItem} {f g : CleanupInventoryItem → β}
    (hsam : ∀ a b, SameItem a b → f a=g b) (h : List.Forall₂ SameItem items items') : items.map f=items'.map g := by
  induction h with
  | nil => rfl
  | cons hab _ ih => rw [map_cons,map_cons,hsam _ _ hab,ih]

theorem Rearranged.map_perm {f g : CleanupInventoryItem → β} (h : Rearranged s s')
    (hsam : ∀ a b, SameItem a b → f a=g b) : (s.items.map f).Perm (s'.items.map g) := by
  obtain ⟨items,hite,hper⟩ := h.items
  rw [forall₂_map_eq hsam hite]
  exact hper.map g

theorem Rearranged.filterMap_perm {f g : CleanupInventoryItem → Option β} (h : Rearranged s s')
    (hsam : ∀ a b, SameItem a b → f a=g b) : (s.items.filterMap f).Perm (s'.items.filterMap g) := by
  have hall:=(h.map_perm hsam).filterMap id
  rw [filterMap_map,filterMap_map] at hall
  exact hall

theorem Rearranged.validateSnapshot (h : Rearranged s s') :
    Cleanup.validateSnapshot s=.ok () ↔ Cleanup.validateSnapshot s'=.ok () := by
  have hite : validateItems [] s.items=.ok () ↔ validateItems [] s'.items=.ok () := by
    rw [validateItems_ok,validateItems_ok,(h.map_perm fun _ _ => SameItem.key).nodup_iff]
    have hnam : (∀ item ∈ s.items, item.id ≠ "" ∧ item.name ≠ "") ↔ ∀ item ∈ s'.items, item.id ≠ "" ∧ item.name ≠ "" := by
      have hper:=h.map_perm (f := fun item => (item.id,item.name)) (g := fun item => (item.id,item.name))
        fun a b hab => by rw [hab.id,hab.name]
      have hmem : ∀ (items : List CleanupInventoryItem), (∀ item ∈ items, item.id ≠ "" ∧ item.name ≠ "") ↔
          ∀ pair ∈ items.map (fun item => (item.id,item.name)), pair.1 ≠ "" ∧ pair.2 ≠ "" := by
        intro items
        simp
      rw [hmem,hmem]
      exact forall_congr' fun pair => by rw [hper.mem_iff]
    rw [hnam]
    simp
  unfold Cleanup.validateSnapshot
  rw [h.rest]
  split_ifs
  · simp
  · simp
  · exact hite

/- A candidate has the identity and the evidence of its own item. -/
theorem cleanupDecision_cases (item : CleanupInventoryItem) :
    cleanupDecision sha256 s selection item=candidate sha256 item ∨
      ∃ reason detail, cleanupDecision sha256 s selection item=.preserved reason detail := by
  unfold cleanupDecision
  split_ifs
  · exact .inr ⟨_,_,rfl⟩
  · exact .inr ⟨_,_,rfl⟩
  · exact .inr ⟨_,_,rfl⟩
  · cases item with
    | container item =>
      simp only
      unfold containerDecision
      split_ifs <;> simp
    | network item =>
      simp only
      unfold networkDecision
      split_ifs <;> simp
    | volume item =>
      simp only
      unfold volumeDecision
      split_ifs <;> simp
    | image item =>
      simp only
      unfold imageDecision
      split_ifs <;> simp
    | record item =>
      simp only
      unfold recordDecision
      split_ifs <;> simp

theorem decision_candidate {c : CleanupCandidate} (h : candidateOf (cleanupDecision sha256 s selection item)=some c) :
    c.kind=item.kind ∧ c.id=item.id ∧ c.name=item.name ∧ c.validationDigest=digest sha256 (cleanupEvidence item) := by
  rcases cleanupDecision_cases item with hcan | ⟨reason,detail,hpre⟩
  · rw [hcan] at h
    obtain rfl := Option.some.inj h
    exact ⟨rfl,rfl,rfl,rfl⟩
  · rw [hpre] at h
    cases h

theorem preservedOf_eq {decision : CleanupDecision} {p : PreservedCleanupItem} (h : preservedOf item decision=some p) :
    p.kind=item.kind ∧ p.id=item.id ∧ p.name=item.name := by
  cases decision with
  | candidate _ => cases h
  | preserved reason detail =>
    obtain rfl := Option.some.inj h
    exact ⟨rfl,rfl,rfl⟩

theorem kind_order_injective {a b : CleanupItemKind} (h : KIND_ORDER a=KIND_ORDER b) : a=b := by
  cases a <;> cases b <;> first | rfl | exact absurd h (by decide)

theorem compareKeyed_eq {kind : α → CleanupItemKind} {name id : α → String} {x y : α}
    (h : compareKeyed kind name id x y=.eq) : kind x=kind y ∧ name x=name y ∧ id x=id y := by
  obtain ⟨hkin,hres⟩ := compareLex_eq.1 h
  obtain ⟨hnam,hid⟩ := compareLex_eq.1 hres
  exact ⟨kind_order_injective (Nat.compare_eq_eq.1 hkin),compareText_eq hnam,compareText_eq hid⟩

instance {α : Type} (kind : α → CleanupItemKind) (name id : α → String) : Std.TransCmp (compareKeyed kind name id) := by
  unfold compareKeyed
  infer_instance

instance : Std.TransCmp compareCandidates := inferInstanceAs (Std.TransCmp (compareKeyed _ _ _))

instance : Std.TransCmp comparePreserved := inferInstanceAs (Std.TransCmp (compareKeyed _ _ _))

theorem compareKeyed_filterMap {kind : α → CleanupItemKind} {name id : α → String}
    {f : CleanupInventoryItem → Option α} (hnod : (s.items.map itemKey).Nodup)
    (hf : ∀ item x, f item=some x → kind x=item.kind ∧ id x=item.id) :
    ∀ x ∈ s.items.filterMap f, ∀ y ∈ s.items.filterMap f, compareKeyed kind name id x y=.eq → x=y := by
  intro x hx y hy heq
  obtain ⟨item,hite,hfx⟩ := mem_filterMap.1 hx
  obtain ⟨other,hoth,hfy⟩ := mem_filterMap.1 hy
  obtain ⟨hkin,-,hid⟩ := compareKeyed_eq heq
  obtain ⟨hkindX,hidX⟩ := hf item x hfx
  obtain ⟨hkindY,hidY⟩ := hf other y hfy
  have hkey : itemKey item=itemKey other := by
    unfold itemKey
    rw [← hkindX,← hidX,hkin,hid,hkindY,hidY]
  have hsam : item=other := inj_on_of_nodup_map hnod hite hoth hkey
  rw [hsam,hfy] at hfx
  exact (Option.some.inj hfx).symm

theorem sorted_filterMap (cmp : α → α → Ordering) [Std.TransCmp cmp] (f : CleanupInventoryItem → Option α)
    (hdis : ∀ x ∈ s.items.filterMap f, ∀ y ∈ s.items.filterMap f, cmp x y=.eq → x=y) :
    sorted cmp ((sorted compareInventoryItems s.items).filterMap f)=sorted cmp (s.items.filterMap f) := by
  refine (sorted_eq_of_perm ?_ hdis).symm
  exact ((sorted_perm compareInventoryItems s.items).filterMap f).symm

/-- The plan of a valid inventory. -/
def planOf (sha256 : List Char → String) (s : CleanupSnapshot) (selection : CleanupSelection) : CleanupPlan :=
  let candidates:=sorted compareCandidates
    (s.items.filterMap fun item => candidateOf (cleanupDecision sha256 s selection item))
  let preserved:=sorted comparePreserved
    (s.items.filterMap fun item => preservedOf item (cleanupDecision sha256 s selection item))
  { schemaVersion := 1, reviewDigest := digest sha256 (digestInput selection candidates preserved), selection, candidates,
    preserved }

theorem buildCleanupPlan_ok :
    buildCleanupPlan sha256 s selection=.ok plan ↔ validateSnapshot s=.ok () ∧ plan=planOf sha256 s selection := by
  unfold buildCleanupPlan
  cases hval : validateSnapshot s with
  | error message =>
    refine iff_of_false ?_ (by simp)
    intro h
    cases h
  | ok value =>
    have hnod:=validateSnapshot_nodup hval
    have hcan:=sorted_filterMap compareCandidates
      (fun item => candidateOf (cleanupDecision sha256 s selection item))
      (compareKeyed_filterMap hnod fun item c hc => ⟨(decision_candidate hc).1,(decision_candidate hc).2.1⟩)
    have hpre:=sorted_filterMap comparePreserved
      (fun item => preservedOf item (cleanupDecision sha256 s selection item))
      (compareKeyed_filterMap hnod fun item p hp => ⟨(preservedOf_eq hp).1,(preservedOf_eq hp).2.1⟩)
    simp only [bind,Except.bind,pure,Except.pure,hcan,hpre]
    constructor
    · intro h
      exact ⟨trivial,(Except.ok.inj h).symm⟩
    · rintro ⟨-,rfl⟩
      rfl

theorem Rearranged.planOf (h : Rearranged s s') (hval : Cleanup.validateSnapshot s=.ok ()) :
    Cleanup.planOf sha256 s selection=Cleanup.planOf sha256 s' selection := by
  have hnod:=validateSnapshot_nodup hval
  have hdec : ∀ a b, SameItem a b → cleanupDecision sha256 s selection a=cleanupDecision sha256 s' selection b := by
    intro a b hab
    rw [hab.decision,h.rest]
    rfl
  have hcan : sorted compareCandidates (s.items.filterMap fun item => candidateOf (cleanupDecision sha256 s selection item)) =
      sorted compareCandidates (s'.items.filterMap fun item => candidateOf (cleanupDecision sha256 s' selection item)) := by
    refine sorted_eq_of_perm (h.filterMap_perm fun a b hab => by rw [hdec a b hab]) ?_
    exact compareKeyed_filterMap hnod fun item c hc => ⟨(decision_candidate hc).1,(decision_candidate hc).2.1⟩
  have hpre : sorted comparePreserved (s.items.filterMap fun item => preservedOf item (cleanupDecision sha256 s selection item)) =
      sorted comparePreserved (s'.items.filterMap fun item => preservedOf item (cleanupDecision sha256 s' selection item)) := by
    refine sorted_eq_of_perm (h.filterMap_perm fun a b hab => ?_) ?_
    · rw [hdec a b hab]
      unfold preservedOf
      rw [hab.kind,hab.id,hab.name]
    · exact compareKeyed_filterMap hnod fun item p hp => ⟨(preservedOf_eq hp).1,(preservedOf_eq hp).2.1⟩
  unfold Cleanup.planOf
  rw [hcan,hpre]

theorem Rearranged.buildCleanupPlan (h : Rearranged s s') :
    Cleanup.buildCleanupPlan sha256 s selection=.ok plan ↔ Cleanup.buildCleanupPlan sha256 s' selection=.ok plan := by
  rw [buildCleanupPlan_ok,buildCleanupPlan_ok]
  constructor
  · rintro ⟨hval,rfl⟩
    exact ⟨h.validateSnapshot.1 hval,h.planOf hval⟩
  · rintro ⟨hval',rfl⟩
    have hval:=h.validateSnapshot.2 hval'
    exact ⟨hval,(h.planOf hval).symm⟩

end

end Qubicl.Cli.Cleanup
