import Mathlib.Data.List.MinMax
import Mathlib.Data.List.Infix
import Qubicl.Control.Pointer.Store
import Qubicl.Foundation.Transition

/-!
# What the cursor is for, and that the store keeps it

A board has the actions that are under way and those that were kept since the last clear; the one begun last is in front.
-/

namespace Qubicl.Control.Pointer
open Foundation List Option

inductive Call
  | begin (action : ViewerPointerAction) (actionId : String)
  | confirm (actionId : String)
  | cancel (actionId : String)
  | apply (update : ViewerPointerUpdate)
  | clear

/-- `settled` has the confirmed ones since the last clear, the last confirmed first. -/
structure Board where
  begun : ℕ := 0
  pending : List (String × Candidate) := []
  settled : List Candidate := []

namespace Board
variable (board : Board)

def begin (action : ViewerPointerAction) (actionId : String) : Board :=
  match pointerPoint action with
  | none => board
  | some point =>
    if validActionId actionId ∧ actionId ∉ board.pending.map Prod.fst then
      { board with
        begun := board.begun+1
        pending := board.pending++[(actionId,point.candidate (board.begun+1))] }
    else board

def confirm (actionId : String) : Board :=
  match board.pending.lookup actionId with
  | none => board
  | some candidate =>
    { board with pending := mapDelete actionId board.pending, settled := candidate::board.settled }

def cancel (actionId : String) : Board := { board with pending := mapDelete actionId board.pending }

def call : Call → Board
  | .begin action actionId => board.begin action actionId
  | .confirm actionId => board.confirm actionId
  | .cancel actionId => board.cancel actionId
  | .apply (.intent actionId _ action) => board.begin action actionId
  | .apply (.confirm actionId _) => board.confirm actionId
  | .apply (.cancel actionId _) => board.cancel actionId
  | .clear => { board with pending := [], settled := [] }

/-- What can be shown. -/
def candidates : List Candidate := board.pending.map Prod.snd++board.settled

def front : Option Candidate := board.candidates.argmax Candidate.order

/-- The orders of the candidates are those of different begins. -/
structure Ordered : Prop where
  keys : (board.pending.map Prod.fst).Nodup
  orders : (board.candidates.map Candidate.order).Nodup
  le_begun : ∀ candidate ∈ board.candidates, candidate.order≤board.begun

end Board

section
variable {α : Type} {f : α → ℕ} {l : List α} {m : α}

theorem argmax_iff (h : (l.map f).Nodup) : l.argmax f=some m ↔ m ∈ l ∧ ∀ a ∈ l, f a≤f m := by
  constructor
  · intro hm
    exact ⟨argmax_mem hm,fun a ha => le_of_mem_argmax ha hm⟩
  · intro ⟨hm,hmax⟩
    cases hfou : l.argmax f with
    | none =>
      rw [argmax_eq_none] at hfou
      subst hfou
      cases hm
    | some n =>
      have hle : f m≤f n := le_of_mem_argmax hm hfou
      have hge : f n≤f m := hmax n (argmax_mem hfou)
      rw [inj_on_of_nodup_map h (argmax_mem hfou) hm (Nat.le_antisymm hge hle)]

theorem argmax_append_argmax {l' : List α} (h : ((l'++l).map f).Nodup) :
    ((l.argmax f).toList++l').argmax f=(l'++l).argmax f := by
  cases hgre : l.argmax f with
  | none =>
    obtain rfl := argmax_eq_none.1 hgre
    simp
  | some n =>
    have hn : n ∈ l := argmax_mem hgre
    have hsub : (Option.some n).toList++l' ⊆ l'++l := by
      intro a ha
      rcases mem_append.1 ha with hone | hrest
      · obtain rfl : a=n := by simpa using hone
        exact mem_append_right l' hn
      · exact mem_append_left l hrest
    cases hfro : (l'++l).argmax f with
    | none =>
      have hnil:=argmax_eq_none.1 hfro
      simp [(append_eq_nil_iff.1 hnil).2] at hn
    | some m =>
      have hinj:=inj_on_of_nodup_map h
      obtain ⟨hm,hmax⟩ := (argmax_iff h).1 hfro
      have hmem : m ∈ (Option.some n).toList++l' := by
        rcases mem_append.1 hm with hlef | hright
        · exact mem_append_right _ hlef
        · have hle : f m≤f n := le_of_mem_argmax hright hgre
          have hge : f n≤f m := hmax n (mem_append_right l' hn)
          rw [hinj (mem_append_right l' hright) (mem_append_right l' hn) (Nat.le_antisymm hle hge)]
          exact mem_append_left l' (by simp)
      cases hfou : ((Option.some n).toList++l').argmax f with
      | none => simp [argmax_eq_none] at hfou
      | some k =>
        have hk:=argmax_mem hfou
        have hle : f m≤f k := le_of_mem_argmax hmem hfou
        rw [hinj (hsub hk) hm (Nat.le_antisymm (hmax k (hsub hk)) hle)]

end

theorem next_eq (store : ViewerPointerStore) :
    store.next=(store.confirmed.toList++store.pending.map Prod.snd).argmax Candidate.order := by
  unfold ViewerPointerStore.next List.argmax
  rw [foldl_append,foldl_map]
  have hsta : List.foldl (List.argAux fun b c => c.order<b.order) none store.confirmed.toList=store.confirmed := by
    cases store.confirmed with
    | none => rfl
    | some candidate => rfl
  rw [hsta]
  congr 1
  funext next entry
  cases next with
  | none => rfl
  | some found => rfl

def Candidate.place (candidate : Candidate) : ViewerPointerKind × ℤ × ℤ × ℤ :=
  (candidate.kind,candidate.x,candidate.y,candidate.button)

def ViewerPointerState.place (state : ViewerPointerState) : ViewerPointerKind × ℤ × ℤ × ℤ :=
  (state.kind,state.x,state.y,state.button)

@[simp] theorem Candidate.place_state (candidate : Candidate) (now : ℤ) : (candidate.state now).place=candidate.place := rfl

/-- What an event says about the front. -/
def ViewerPointerEvent.Tells (event : ViewerPointerEvent) (front : Option Candidate) : Prop :=
  match event with
  | .show state _ _ => front.map Candidate.place=some state.place
  | .hide _ _ => front=none

/-- The last events of a history. -/
def recent (log : List ViewerPointerEvent) : List ViewerPointerEvent := log.drop (log.length - MAX_EVENTS)

inductive Published (store store' : ViewerPointerStore) : Option ViewerPointerEvent → Prop
  | silent : store'.sequence=store.sequence → store'.events=store.events → store'.waiters=store.waiters →
      store'.resolved=store.resolved → Published store store' none
  | emitted (event : ViewerPointerEvent) : event.sequence=store.sequence+1 → store'.sequence=event.sequence →
      store'.events=recent (store.events++[event]) → store'.waiters=[] →
      store'.resolved=store.resolved++store.waiters → Published store store' (some event)

theorem Published.congr {store₀ store store' : ViewerPointerStore} {emitted : Option ViewerPointerEvent}
    (h : Published store₀ store' emitted) (hseq : store₀.sequence=store.sequence)
    (heve : store₀.events=store.events) (hwai : store₀.waiters=store.waiters)
    (hres : store₀.resolved=store.resolved) : Published store store' emitted := by
  cases h with
  | silent h₁ h₂ h₃ h₄ =>
    exact .silent (h₁.trans hseq) (h₂.trans heve) (h₃.trans hwai) (h₄.trans hres)
  | emitted event h₁ h₂ h₃ h₄ h₅ =>
    rw [hseq] at h₁
    rw [heve] at h₃
    rw [hwai,hres] at h₅
    exact .emitted event h₁ h₂ h₃ h₄ h₅

structure Holds (store : ViewerPointerStore) (board : Board) : Prop where
  order : store.order=board.begun
  pending : store.pending=board.pending
  confirmed : store.confirmed=board.settled.argmax Candidate.order

structure Displays (store : ViewerPointerStore) (front : Option Candidate) : Prop where
  displayed : store.displayed=front
  current : store.current.map ViewerPointerState.place=front.map Candidate.place

/-- What every call is proved to do: the store follows the board, and it tells the viewers when the front is another or
was just begun. -/
structure Follows (store store' : ViewerPointerStore) (board board' : Board) (emitted : Option ViewerPointerEvent) : Prop where
  holds : Holds store' board'
  displays : Displays store' board'.front
  published : Published store store' emitted
  tells : ∀ event ∈ emitted, event.Tells board'.front
  exactly_when : emitted.isSome ↔ board'.front≠board.front

namespace Board
variable {board : Board}

theorem Ordered.mem_unique (h : board.Ordered) {a b : Candidate} (ha : a ∈ board.candidates) (hb : b ∈ board.candidates)
    (heq : a.order=b.order) : a=b :=
  inj_on_of_nodup_map h.orders ha hb heq

theorem front_mem {candidate : Candidate} (h : board.front=some candidate) : candidate ∈ board.candidates :=
  argmax_mem h

theorem front_eq_none : board.front=none ↔ board.candidates=[] := argmax_eq_none

end Board

theorem next_front {store : ViewerPointerStore} {board : Board} (h : Holds store board) (hord : board.Ordered) :
    store.next=board.front := by
  rw [next_eq,h.confirmed,h.pending]
  exact argmax_append_argmax hord.orders

theorem published_show (store : ViewerPointerStore) (candidate : Candidate) (pulse : Bool) (now : ℤ) :
    Published store (store.show candidate pulse now).1 (some (store.show candidate pulse now).2) := by
  apply Published.emitted
  · rfl
  · rfl
  · rfl
  · rfl
  · rfl

/-- The kept and the pending ones have changed to those of another board, and what is shown is still the old front. -/
theorem reconcile_follows {store : ViewerPointerStore} {board board' : Board} (now : ℤ) (hore : board.Ordered)
    (hord' : board'.Ordered) (hhol : Holds store board') (hdis : Displays store board.front)
    (hsub : board'.candidates ⊆ board.candidates) :
    Follows store (store.reconcile now).1 board board' (store.reconcile now).2 := by
  have hnex:=next_front hhol hord'
  unfold ViewerPointerStore.reconcile
  rw [hnex,hdis.displayed]
  by_cases hsam : board'.front.map Candidate.order=board.front.map Candidate.order
  · -- two candidates of one board with one order are one
    have hfro : board'.front=board.front := by
      cases hnew : board'.front with
      | none =>
        cases hold : board.front with
        | none => rfl
        | some b => simp [hnew,hold] at hsam
      | some a =>
        cases hold : board.front with
        | none => simp [hnew,hold] at hsam
        | some b =>
          have hord : a.order=b.order := by simpa [hnew,hold] using hsam
          rw [hore.mem_unique (hsub (Board.front_mem hnew)) (Board.front_mem hold) hord]
    rw [if_pos hsam]
    exact ⟨hhol,hfro ▸ hdis,.silent rfl rfl rfl rfl,by simp,by simp [hfro]⟩
  · have hfro : board'.front≠board.front := fun heq => hsam (by rw [heq])
    rw [if_neg hsam]
    cases hnew : board'.front with
    | some a =>
      refine ⟨⟨hhol.order,hhol.pending,hhol.confirmed⟩,?_,published_show store a false now,?_,?_⟩
      · rw [hnew]
        exact ⟨rfl,rfl⟩
      · intro event heve
        obtain rfl := Option.some.inj heve
        simp [ViewerPointerStore.show,ViewerPointerEvent.Tells,hnew]
      · simpa [hnew] using hfro
    | none =>
      have hsom : board.front.isNone=false := by
        cases hold : board.front with
        | none => exact absurd (hnew.trans hold.symm) hfro
        | some b => rfl
      rw [if_neg (by simp [hsom])]
      refine ⟨⟨hhol.order,hhol.pending,hhol.confirmed⟩,?_,?_,?_,?_⟩
      · rw [hnew]
        exact ⟨rfl,rfl⟩
      · exact .emitted _ rfl rfl rfl rfl rfl
      · intro event heve
        obtain rfl := Option.some.inj heve
        exact hnew
      · simpa [hnew] using hfro

variable {actionId : String} {pending : List (String × Candidate)}

section
variable {store : ViewerPointerStore} {board : Board}

theorem lookup_none_iff : (pending.lookup actionId).isSome=false ↔ actionId ∉ pending.map Prod.fst := by
  rw [isSome_eq_false_iff,isNone_iff_eq_none,lookup_eq_none_iff]
  constructor
  · intro h hmem
    obtain ⟨entry,hent,rfl⟩ := mem_map.1 hmem
    simpa using h entry hent
  · intro h entry hent
    have hne : actionId≠entry.1 := fun heq => h (mem_map.2 ⟨entry,hent,heq.symm⟩)
    simpa using hne

theorem begin_accepted (hore : board.Ordered) (point : Point) (hfre : actionId ∉ board.pending.map Prod.fst) :
    let candidate:=point.candidate (board.begun+1)
    let board' : Board :=
      { board with begun := board.begun+1, pending := board.pending++[(actionId,candidate)] }
    board'.Ordered ∧ board'.front=some candidate := by
  intro candidate board'
  have hmem : ∀ c, c ∈ board'.candidates ↔ c ∈ board.candidates ∨ c=candidate := by
    intro c
    simp only [Board.candidates,board',map_append,map_cons,map_nil,mem_append,mem_singleton]
    tauto
  have hper : board'.candidates.Perm (candidate::board.candidates) := by
    simp only [Board.candidates,board',map_append,map_cons,map_nil,append_assoc]
    exact perm_middle
  have hord : board'.Ordered := by
    constructor
    · simp only [board',map_append,map_cons,map_nil]
      rw [nodup_append]
      refine ⟨hore.keys,by simp,?_⟩
      intro a ha b hb heq
      obtain rfl : b=actionId := by simpa using hb
      exact hfre (heq ▸ ha)
    · rw [(hper.map Candidate.order).nodup_iff,map_cons,nodup_cons]
      refine ⟨?_,hore.orders⟩
      intro hold
      obtain ⟨c,hc,heq⟩ := mem_map.1 hold
      have hle:=hore.le_begun c hc
      have hnew : candidate.order=board.begun+1 := rfl
      omega
    · intro c hc
      rcases (hmem c).1 hc with hold | rfl
      · exact Nat.le_succ_of_le (hore.le_begun c hold)
      · exact Nat.le_refl _
  refine ⟨hord,(argmax_iff hord.orders).2 ⟨(hmem _).2 (Or.inr rfl),?_⟩⟩
  intro c hc
  rcases (hmem c).1 hc with hold | rfl
  · exact Nat.le_succ_of_le (hore.le_begun c hold)
  · exact Nat.le_refl _

theorem begin_follows (hore : board.Ordered) (hhol : Holds store board) (hdis : Displays store board.front)
    (action : ViewerPointerAction) (actionId : String) (now : ℤ) :
    (board.begin action actionId).Ordered ∧
      Follows store (store.begin action actionId now).1 board (board.begin action actionId)
        ((store.begin action actionId now).2.map Prod.snd) := by
  have hsta : board.Ordered ∧ Follows store store board board none :=
    ⟨hore,hhol,hdis,.silent rfl rfl rfl rfl,by simp,by simp⟩
  unfold ViewerPointerStore.begin Board.begin
  cases hpoi : pointerPoint action with
  | none => exact hsta
  | some point =>
    by_cases hfit : validActionId actionId ∧ actionId ∉ board.pending.map Prod.fst
    · have hloo : (board.pending.lookup actionId).isSome=false := lookup_none_iff.2 hfit.2
      obtain ⟨hord,hfro⟩ := begin_accepted hore point hfit.2
      have hset : mapSet actionId (point.candidate (board.begun+1)) board.pending =
          board.pending++[(actionId,point.candidate (board.begun+1))] := by
        apply mapSet_of_fresh
        intro entry hmem heq
        exact hfit.2 (mem_map.2 ⟨entry,hmem,heq⟩)
      have hacc : ¬(!validActionId actionId || (board.pending.lookup actionId).isSome)=true := by
        simp [hloo,hfit.1]
      simp only [hhol.order,hhol.pending,hset]
      rw [if_neg hacc,if_pos hfit]
      refine ⟨hord,⟨rfl,rfl,hhol.confirmed⟩,?_,?_,?_,?_⟩
      · rw [hfro]
        exact ⟨rfl,rfl⟩
      · exact .emitted _ rfl rfl rfl rfl rfl
      · intro event heve
        obtain rfl := Option.some.inj heve
        simp [ViewerPointerStore.show,ViewerPointerEvent.Tells,hfro]
      · rw [hfro]
        refine ⟨fun _ heq => ?_,fun _ => rfl⟩
        have hle:=hore.le_begun _ (Board.front_mem heq.symm)
        have hnew : (point.candidate (board.begun+1)).order=board.begun+1 := rfl
        omega
    · have hski : (!validActionId actionId || (store.pending.lookup actionId).isSome)=true := by
        cases hval : validActionId actionId with
        | false => rfl
        | true =>
          have hmem : actionId ∈ board.pending.map Prod.fst := by
            by_contra habs
            exact hfit ⟨hval,habs⟩
          cases hloo : (store.pending.lookup actionId).isSome with
          | true => rfl
          | false =>
            rw [hhol.pending] at hloo
            exact absurd hmem (lookup_none_iff.1 hloo)
      simp only [hski,if_true,if_neg hfit]
      exact hsta

theorem mapDelete_ordered (hord : board.Ordered) (actionId : String) :
    { board with pending := mapDelete actionId board.pending : Board }.Ordered ∧
      { board with pending := mapDelete actionId board.pending : Board }.candidates.Sublist board.candidates := by
  have hsub : (mapDelete actionId board.pending).Sublist board.pending := filter_sublist
  have hcan : { board with pending := mapDelete actionId board.pending : Board }.candidates.Sublist board.candidates :=
    (hsub.map Prod.snd).append (List.Sublist.refl board.settled)
  refine ⟨⟨hord.keys.sublist (hsub.map Prod.fst),hord.orders.sublist (hcan.map Candidate.order),?_⟩,hcan⟩
  exact fun candidate hmem => hord.le_begun candidate (hcan.subset hmem)

theorem mapDelete_of_absent (h : pending.lookup actionId=none) : mapDelete actionId pending=pending := by
  unfold mapDelete
  rw [filter_eq_self]
  intro entry hmem
  have hne : actionId≠entry.1 := by simpa using lookup_eq_none_iff.1 h entry hmem
  exact decide_eq_true hne.symm

theorem cancel_follows (hore : board.Ordered) (hhol : Holds store board) (hdis : Displays store board.front)
    (actionId : String) (now : ℤ) :
    (board.cancel actionId).Ordered ∧
      Follows store (store.cancel actionId now).1 board (board.cancel actionId) (store.cancel actionId now).2.2 := by
  obtain ⟨hord,hsub⟩ := mapDelete_ordered hore actionId
  unfold ViewerPointerStore.cancel
  cases hloo : store.pending.lookup actionId with
  | none =>
    have hsam : board.cancel actionId=board := by
      unfold Board.cancel
      rw [mapDelete_of_absent (hhol.pending ▸ hloo)]
    simp only [isNone_none,if_true]
    rw [hsam]
    exact ⟨hore,hhol,hdis,.silent rfl rfl rfl rfl,by simp,by simp⟩
  | some candidate =>
    simp only [isNone_some,Bool.false_eq_true,if_false]
    have haft : Holds { store with pending := mapDelete actionId store.pending } (board.cancel actionId) :=
      ⟨hhol.order,by rw [hhol.pending]; rfl,hhol.confirmed⟩
    have hfol:=reconcile_follows now hore hord haft ⟨hdis.displayed,hdis.current⟩ hsub.subset
    exact ⟨hord,hfol.holds,hfol.displays,hfol.published.congr rfl rfl rfl rfl,
      hfol.tells,hfol.exactly_when⟩

theorem confirm_ordered (hord : board.Ordered) {candidate : Candidate}
    (hloo : board.pending.lookup actionId=some candidate) :
    (board.confirm actionId).Ordered ∧ (board.confirm actionId).candidates ⊆ board.candidates := by
  have hent : (actionId,candidate) ∈ board.pending := mem_of_lookup hloo
  have hmem : candidate ∈ board.candidates :=
    mem_append_left _ (mem_map.2 ⟨(actionId,candidate),hent,rfl⟩)
  have hboa : board.confirm actionId =
      { board with pending := mapDelete actionId board.pending, settled := candidate::board.settled } := by
    unfold Board.confirm
    rw [hloo]
  obtain ⟨hdel,hsub⟩ := mapDelete_ordered hord actionId
  have hper : (board.confirm actionId).candidates.Perm
      (candidate :: { board with pending := mapDelete actionId board.pending : Board }.candidates) := by
    rw [hboa]
    exact perm_middle
  have hinc : (board.confirm actionId).candidates ⊆ board.candidates := by
    intro c hc
    rcases mem_cons.1 (hper.subset hc) with rfl | hold
    · exact hmem
    · exact hsub.subset hold
  -- the entry is gone from the pending ones, and no other has its order
  have hfre : candidate.order ∉
      { board with pending := mapDelete actionId board.pending : Board }.candidates.map Candidate.order := by
    intro hold
    obtain ⟨c,hc,heq⟩ := mem_map.1 hold
    have hnod : (board.pending.map Prod.snd++board.settled).Nodup := List.Nodup.of_map _ hord.orders
    have hsam : c=candidate := hord.mem_unique (hsub.subset hc) hmem heq
    subst hsam
    rcases mem_append.1 hc with hpen | hsettled
    · obtain ⟨entry,hres,hsnd⟩ := mem_map.1 hpen
      obtain ⟨hin,hkey⟩ := mem_mapDelete.1 hres
      have hsns : (board.pending.map Prod.snd).Nodup := (nodup_append.1 hnod).1
      have heq' : entry=(actionId,c) := inj_on_of_nodup_map hsns hin hent hsnd
      exact hkey (by rw [heq'])
    · exact (nodup_append.1 hnod).2.2 c (mem_map.2 ⟨_,hent,rfl⟩) c hsettled rfl
  refine ⟨⟨?_,?_,?_⟩,hinc⟩
  · rw [hboa]
    exact hdel.keys
  · rw [(hper.map Candidate.order).nodup_iff,map_cons,nodup_cons]
    exact ⟨hfre,hdel.orders⟩
  · intro c hc
    have hbeg : (board.confirm actionId).begun=board.begun := by rw [hboa]
    rw [hbeg]
    exact hord.le_begun c (hinc hc)

theorem argmax_cons_order (candidate : Candidate) (settled : List Candidate)
    (h : ((candidate::settled).map Candidate.order).Nodup) :
    (candidate::settled).argmax Candidate.order =
      match settled.argmax Candidate.order with
      | none => some candidate
      | some confirmed => if candidate.order ≥ confirmed.order then some candidate else some confirmed := by
  rw [argmax_cons]
  cases hgre : settled.argmax Candidate.order with
  | none => rfl
  | some confirmed =>
    have hne : candidate.order≠confirmed.order := by
      intro heq
      exact (nodup_cons.1 h).1 (mem_map.2 ⟨confirmed,argmax_mem hgre,heq.symm⟩)
    by_cases hlt : candidate.order<confirmed.order
    · simp [hlt]
    · have hge : confirmed.order≤candidate.order := by omega
      simp [hge]

theorem confirm_follows (hore : board.Ordered) (hhol : Holds store board) (hdis : Displays store board.front)
    (actionId : String) (now : ℤ) :
    (board.confirm actionId).Ordered ∧
      Follows store (store.confirm actionId now).1 board (board.confirm actionId) (store.confirm actionId now).2.2 := by
  have hpen:=hhol.pending
  cases hloo : board.pending.lookup actionId with
  | none =>
    have hsam : board.confirm actionId=board := by
      unfold Board.confirm
      rw [hloo]
    unfold ViewerPointerStore.confirm
    rw [hpen,hloo,hsam]
    exact ⟨hore,hhol,hdis,.silent rfl rfl rfl rfl,by simp,by simp⟩
  | some candidate =>
    obtain ⟨hord,hsub⟩ := confirm_ordered hore hloo
    have hboa : board.confirm actionId =
        { board with pending := mapDelete actionId board.pending, settled := candidate::board.settled } := by
      unfold Board.confirm
      rw [hloo]
    have hors : ((candidate::board.settled).map Candidate.order).Nodup := by
      have hall:=hord.orders
      rw [hboa] at hall
      exact hall.sublist ((sublist_append_right _ _).map Candidate.order)
    have hkep:=argmax_cons_order candidate board.settled hors
    unfold ViewerPointerStore.confirm
    rw [hpen,hloo,hhol.confirmed]
    have haft : Holds
        { store with
          pending := mapDelete actionId board.pending
          confirmed := match board.settled.argmax Candidate.order with
            | none => some candidate
            | some confirmed => if candidate.order ≥ confirmed.order then some candidate else some confirmed }
        (board.confirm actionId) := by
      rw [hboa]
      exact ⟨hhol.order,rfl,hkep.symm⟩
    have hfol:=reconcile_follows now hore hord haft ⟨hdis.displayed,hdis.current⟩ hsub
    exact ⟨hord,hfol.holds,hfol.displays,hfol.published.congr rfl rfl rfl rfl,
      hfol.tells,hfol.exactly_when⟩

theorem clear_follows (hhol : Holds store board) (hdis : Displays store board.front) (now : ℤ) :
    (board.call .clear).Ordered ∧
      Follows store (store.clear now).1 board (board.call .clear) (store.clear now).2 := by
  have hord : (board.call .clear).Ordered := ⟨nodup_nil,nodup_nil,fun candidate hmem => by cases hmem⟩
  have hfro : (board.call .clear).front=none := rfl
  have hsta : (store.displayed.isSome || store.confirmed.isSome || !store.pending.isEmpty)=board.front.isSome := by
    rw [hdis.displayed,hhol.confirmed,hhol.pending]
    cases hnow : board.front with
    | some candidate => rfl
    | none =>
      obtain ⟨hpen,hset⟩ := append_eq_nil_iff.1 (Board.front_eq_none.1 hnow)
      rw [map_eq_nil_iff.1 hpen,hset]
      rfl
  unfold ViewerPointerStore.clear
  simp only [hsta]
  cases hnow : board.front with
  | none =>
    exact ⟨hord,⟨hhol.order,rfl,rfl⟩,⟨rfl,rfl⟩,.silent rfl rfl rfl rfl,by simp,by simp [hfro,hnow]⟩
  | some candidate =>
    refine ⟨hord,⟨hhol.order,rfl,rfl⟩,⟨rfl,rfl⟩,.emitted _ rfl rfl rfl rfl rfl,?_,by simp [hfro,hnow]⟩
    intro event heve
    obtain rfl := Option.some.inj heve
    exact hfro

end

namespace ViewerPointerStore

/-- One call, and what it emits. -/
def call (store : ViewerPointerStore) (c : Call) (now : ℤ) : ViewerPointerStore × Option ViewerPointerEvent :=
  match c with
  | .begin action actionId => ((store.begin action actionId now).1,(store.begin action actionId now).2.map Prod.snd)
  | .confirm actionId => ((store.confirm actionId now).1,(store.confirm actionId now).2.2)
  | .cancel actionId => ((store.cancel actionId now).1,(store.cancel actionId now).2.2)
  | .apply update => ((store.apply update now).1,(store.apply update now).2.2)
  | .clear => store.clear now

end ViewerPointerStore

theorem call_follows {store : ViewerPointerStore} {board : Board} (hord : board.Ordered) (hhol : Holds store board)
    (hdis : Displays store board.front) (c : Call) (now : ℤ) :
    (board.call c).Ordered ∧ Follows store (store.call c now).1 board (board.call c) (store.call c now).2 := by
  cases c with
  | begin action actionId => exact begin_follows hord hhol hdis action actionId now
  | confirm actionId => exact confirm_follows hord hhol hdis actionId now
  | cancel actionId => exact cancel_follows hord hhol hdis actionId now
  | apply update =>
    cases update with
    | intent actionId generation action => exact begin_follows hord hhol hdis action actionId now
    | confirm actionId generation => exact confirm_follows hord hhol hdis actionId now
    | cancel actionId generation => exact cancel_follows hord hhol hdis actionId now
  | clear => exact clear_follows hhol hdis now


end Qubicl.Control.Pointer
