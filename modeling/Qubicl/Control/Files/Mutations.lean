import Qubicl.Foundation.Transition

/-!
# Mutations of one root (packages/control/src/bounded-files.ts:1490-1500, file-mutations.ts:3-13)
-/

namespace Qubicl.Control.Files
open Qubicl.Foundation List

/-- A call waits for the tail that it found, runs its action, has the action's result or error, and has returned it. -/
inductive Phase (α : Type)
  | waiting
  | running
  | settled (result : α)
  | returned (result : α)
  deriving DecidableEq, Repr

def Phase.ended {α : Type} : Phase α → Bool
  | .settled _ => true
  | .returned _ => true
  | _ => false

structure Call (α : Type) where
  root : String
  previous : Option ℕ
  phase : Phase α
  deriving DecidableEq, Repr

/-- The calls in the order in which they were made. The promise `queued` of a call is known by the call's number. -/
structure Queues (α : Type) where
  calls : List (Call α)
  mutationQueues : String → Option ℕ

inductive Action (α : Type)
  | serializeMutation (root : String)
  | start (call : ℕ)
  | settle (call : ℕ) (result : α)
  | leave (call : ℕ)

namespace Queues
variable {α : Type}

def advance (q : Queues α) (call : ℕ) (phase : Phase α) : Queues α :=
  { q with calls := q.calls.modify call fun c => { c with phase := phase } }

/-- `previous.catch(() => undefined)` is resolved. -/
def free (q : Queues α) : Option ℕ → Bool
  | none => true
  | some previous => (q.calls[previous]?).any fun c => c.phase.ended

def step (q : Queues α) : Action α → Option (Queues α)
  | .serializeMutation root =>
    some ⟨q.calls++[⟨root,q.mutationQueues root,.waiting⟩],Function.update q.mutationQueues root (some q.calls.length)⟩
  | .start call =>
    match q.calls[call]? with
    | some ⟨_,previous,.waiting⟩ => if q.free previous then some (q.advance call .running) else none
    | _ => none
  | .settle call result =>
    match q.calls[call]? with
    | some ⟨_,_,.running⟩ => some (q.advance call (.settled result))
    | _ => none
  | .leave call =>
    match q.calls[call]? with
    | some ⟨root,_,.settled result⟩ =>
      let done:=q.advance call (.returned result)
      some (if q.mutationQueues root=some call then
        { done with mutationQueues := Function.update q.mutationQueues root none } else done)
    | _ => none

end Queues

def mutationSystem (α : Type) : TransitionSystem (Queues α) (Action α) where
  initial q := q=⟨[],fun _ => none⟩
  step := Queues.step

section Serial
variable {α : Type} {q t : Queues α} {i j k : ℕ} {c d : Call α} {phase : Phase α} {root : String}

/-- A tail in the map is that of the last call on its root, which has not returned. -/
def Tail (q : Queues α) (root : String) (j : ℕ) : Prop :=
  (∃ c, q.calls[j]? = some c ∧ c.root=root ∧ ∀ result, c.phase≠.returned result) ∧
    ∀ (i : ℕ) (c : Call α), j < i → q.calls[i]? = some c → c.root≠root

/-- What a call has found in the map: the last call on its root before it, or none where all of these had ended. -/
structure Serial (q : Queues α) : Prop where
  tail : ∀ root j, q.mutationQueues root=some j → Tail q root j
  cleared : ∀ root, q.mutationQueues root=none → ∀ (i : ℕ) (c : Call α), q.calls[i]? = some c → c.root=root →
    c.phase.ended=true
  first : ∀ (j : ℕ) (d : Call α), q.calls[j]? = some d → d.previous=none →
    ∀ (i : ℕ) (c : Call α), i<j → q.calls[i]? = some c → c.root=d.root → c.phase.ended=true
  chained : ∀ (j : ℕ) (d : Call α) (p : ℕ), q.calls[j]? = some d → d.previous=some p →
    p<j ∧ (∃ c, q.calls[p]? = some c ∧ c.root=d.root) ∧
      ∀ (i : ℕ) (c : Call α), p < i → i<j → q.calls[i]? = some c → c.root≠d.root
  ordered : ∀ (i j : ℕ) (c d : Call α), i<j → q.calls[i]? = some c → q.calls[j]? = some d → c.root=d.root →
    d.phase≠.waiting → c.phase.ended=true

theorem advance_get (h : (q.advance k phase).calls[i]? = some d) :
    ∃ c, q.calls[i]? = some c ∧ d.root=c.root ∧ d.previous=c.previous ∧ (i=k ∧ d.phase=phase ∨ i≠k ∧ d=c) := by
  unfold Queues.advance at h
  rw [getElem?_modify] at h
  obtain ⟨c,hc,heq⟩ := Option.map_eq_some_iff.1 h
  refine ⟨c,hc,?_⟩
  by_cases hk : k=i
  · rw [if_pos hk] at heq
    subst heq
    exact ⟨rfl,rfl,Or.inl ⟨hk.symm,rfl⟩⟩
  · rw [if_neg hk] at heq
    subst heq
    exact ⟨rfl,rfl,Or.inr ⟨fun h => hk h.symm,rfl⟩⟩

theorem get_advance (h : q.calls[i]? = some c) :
    (q.advance k phase).calls[i]? = some (if k=i then { c with phase := phase } else c) := by
  unfold Queues.advance
  rw [getElem?_modify,h]
  split
  · rfl
  · rfl

theorem ended_advance (hk : ∀ c, q.calls[k]? = some c → c.phase.ended=true → phase.ended=true)
    (h : ∀ c, q.calls[i]? = some c → c.phase.ended=true) (hd : (q.advance k phase).calls[i]? = some d) :
    d.phase.ended=true := by
  obtain ⟨c,hc,-,-,⟨rfl,hpha⟩ | ⟨-,rfl⟩⟩ := advance_get hd
  · rw [hpha]
    exact hk c hc (h c hc)
  · exact h d hc

/-- A phase is advanced: what has ended stays so, and what is started has nothing before it that has not ended. -/
theorem Serial.advance (h : Serial q) (hk : ∀ c, q.calls[k]? = some c → c.phase.ended=true → phase.ended=true)
    (hsta : ∀ d, q.calls[k]? = some d → ∀ i c, i<k → q.calls[i]? = some c → c.root=d.root → c.phase.ended=true)
    (hret : ∀ root, q.mutationQueues root=some k → ∀ result, phase≠.returned result) : Serial (q.advance k phase) where
  tail root j hj := by
    obtain ⟨⟨c,hc,hroo,hpha⟩,hlas⟩ := h.tail root j hj
    refine ⟨⟨_,get_advance hc,?_,?_⟩,?_⟩
    · split
      · exact hroo
      · exact hroo
    · intro result
      split
      next heq => exact hret root (heq ▸ hj) result
      next => exact hpha result
    · intro i d hlt hd
      obtain ⟨c,hc,hroo,-⟩ := advance_get hd
      rw [hroo]
      exact hlas i c hlt hc
  cleared root hnon i d hd hroo := by
    obtain ⟨c,hc,hsam,-⟩ := advance_get hd
    exact ended_advance hk (fun c' hc' => h.cleared root hnon i c' hc' (by
      rw [hc] at hc'
      cases hc'
      exact hsam.symm.trans hroo)) hd
  first j d hd hpre i c hlt hc hroo := by
    obtain ⟨d',hd',hsam,hprv,-⟩ := advance_get hd
    obtain ⟨c',hc',hsam',-⟩ := advance_get hc
    refine ended_advance hk (fun c'' hc'' => ?_) hc
    rw [hc'] at hc''
    cases hc''
    exact h.first j d' hd' (hprv.symm.trans hpre) i c' hlt hc' (by rw [← hsam',hroo,hsam])
  chained j d p hd hpre := by
    obtain ⟨d',hd',hsam,hprv,-⟩ := advance_get hd
    obtain ⟨hlt,⟨c,hc,hroo⟩,hbet⟩ := h.chained j d' p hd' (hprv.symm.trans hpre)
    refine ⟨hlt,⟨_,get_advance hc,?_⟩,?_⟩
    · rw [hsam]
      split
      · exact hroo
      · exact hroo
    · intro i e hpi hij he
      obtain ⟨e',he',hsam',-⟩ := advance_get he
      rw [hsam',hsam]
      exact hbet i e' hpi hij he'
  ordered i j c d hlt hc hd hroo hpha := by
    obtain ⟨c',hc',hsam,-⟩ := advance_get hc
    obtain ⟨d',hd',hsam',-,hcas⟩ := advance_get hd
    have hroo' : c'.root=d'.root := by rw [← hsam,hroo,hsam']
    refine ended_advance hk (fun c'' hc'' => ?_) hc
    rw [hc'] at hc''
    cases hc''
    rcases hcas with ⟨rfl,-⟩ | ⟨-,rfl⟩
    · exact hsta d' hd' i c' hlt hc' hroo'
    · exact h.ordered i j c' d hlt hc' hd' hroo' hpha

/-- Where the tail that a call found is resolved, every earlier call on its root has ended. -/
theorem Serial.free (h : Serial q) (hd : q.calls[j]? = some d) (hfre : q.free d.previous=true) (hlt : i<j)
    (hc : q.calls[i]? = some c) (hroo : c.root=d.root) : c.phase.ended=true := by
  cases hpre : d.previous with
  | none => exact h.first j d hd hpre i c hlt hc hroo
  | some p =>
    rw [hpre] at hfre
    obtain ⟨hp,⟨e,he,hero⟩,hbet⟩ := h.chained j d p hd hpre
    have hend : e.phase.ended=true := by
      simpa [Queues.free,he] using hfre
    rcases Nat.lt_trichotomy i p with hip | rfl | hpi
    · refine h.ordered i p c e hip hc he (hroo.trans hero.symm) fun hwai => ?_
      rw [hwai] at hend
      cases hend
    · rw [hc] at he
      cases he
      exact hend
    · exact absurd hroo (hbet i c hpi hlt hc)

theorem get_append (h : (q.calls++[d])[i]? = some c) : i<q.calls.length ∧ q.calls[i]? = some c ∨ i=q.calls.length ∧ c=d := by
  rcases Nat.lt_or_ge i q.calls.length with hlt | hge
  · rw [getElem?_append_left hlt] at h
    exact Or.inl ⟨hlt,h⟩
  · rw [getElem?_append_right hge] at h
    obtain ⟨hzer,rfl⟩ := List.getElem?_eq_some_iff.1 h
    simp only [length_singleton] at hzer
    exact Or.inr ⟨by omega,by simp⟩

theorem lt_of_get (h : q.calls[i]? = some c) : i<q.calls.length := (List.getElem?_eq_some_iff.1 h).1

theorem Serial.called (h : Serial q) (hste : q.step (.serializeMutation root)=some t) : Serial t := by
  cases hste
  have hgro {i : ℕ} {c d : Call α} (hc : q.calls[i]? = some c) : (q.calls++[d])[i]? = some c := by
    rw [getElem?_append_left (lt_of_get hc)]
    exact hc
  have hbef {i : ℕ} {c : Call α} (hc : q.calls[i]? = some c) (hroo : c.root=root) (hnon : q.mutationQueues root=none) :
      c.phase.ended=true := h.cleared root hnon i c hc hroo
  constructor
  · intro other j hj
    by_cases heq : other=root
    · subst heq
      dsimp only at hj
      rw [Function.update_self] at hj
      cases hj
      refine ⟨⟨_,getElem?_concat_length ..,rfl,fun _ hpha => by cases hpha⟩,fun i c hlt hc => ?_⟩
      rcases get_append hc with ⟨hi,-⟩ | ⟨hi,-⟩
      · omega
      · omega
    · dsimp only at hj
      rw [Function.update_of_ne heq] at hj
      obtain ⟨⟨c,hc,hroo,hpha⟩,hlas⟩ := h.tail other j hj
      refine ⟨⟨c,hgro hc,hroo,hpha⟩,fun i d hlt hd => ?_⟩
      rcases get_append hd with ⟨-,hd⟩ | ⟨-,rfl⟩
      · exact hlas i d hlt hd
      · exact fun hsam => heq hsam.symm
  · intro other hnon i c hc hroo
    dsimp only at hnon
    by_cases heq : other=root
    · rw [heq,Function.update_self] at hnon
      cases hnon
    · rw [Function.update_of_ne heq] at hnon
      rcases get_append hc with ⟨-,hc⟩ | ⟨-,rfl⟩
      · exact h.cleared other hnon i c hc hroo
      · exact absurd hroo.symm heq
  · intro j d hd hpre i c hlt hc hroo
    rcases get_append hd with ⟨hj,hd⟩ | ⟨rfl,rfl⟩
    · rcases get_append hc with ⟨-,hc⟩ | ⟨hi,-⟩
      · exact h.first j d hd hpre i c hlt hc hroo
      · omega
    · rcases get_append hc with ⟨-,hc⟩ | ⟨hi,-⟩
      · exact hbef hc hroo hpre
      · omega
  · intro j d p hd hpre
    rcases get_append hd with ⟨hj,hd⟩ | ⟨rfl,rfl⟩
    · obtain ⟨hlt,⟨c,hc,hroo⟩,hbet⟩ := h.chained j d p hd hpre
      refine ⟨hlt,⟨c,hgro hc,hroo⟩,fun i e hpi hij he => ?_⟩
      rcases get_append he with ⟨-,he⟩ | ⟨hi,-⟩
      · exact hbet i e hpi hij he
      · omega
    · obtain ⟨⟨c,hc,hroo,-⟩,hlas⟩ := h.tail root p hpre
      refine ⟨lt_of_get hc,⟨c,hgro hc,hroo⟩,fun i e hpi hij he => ?_⟩
      rcases get_append he with ⟨-,he⟩ | ⟨hi,-⟩
      · exact hlas i e hpi he
      · omega
  · intro i j c d hlt hc hd hroo hpha
    rcases get_append hd with ⟨hj,hd⟩ | ⟨-,rfl⟩
    · rcases get_append hc with ⟨-,hc⟩ | ⟨hi,-⟩
      · exact h.ordered i j c d hlt hc hd hroo hpha
      · omega
    · exact absurd rfl hpha

theorem Serial.started (h : Serial q) (hste : q.step (.start k)=some t) : Serial t := by
  unfold Queues.step at hste
  dsimp only at hste
  split at hste
  next root previous hk =>
    split at hste
    next hfre =>
      cases hste
      refine h.advance ?_ ?_ ?_
      · intro c hc hend
        rw [hk] at hc
        cases hc
        cases hend
      · intro d hd i c hlt hc hroo
        rw [hk] at hd
        cases hd
        exact h.free hk hfre hlt hc hroo
      · intro root hroo result hpha
        cases hpha
    next => cases hste
  next => cases hste

theorem Serial.settled {result : α} (h : Serial q) (hste : q.step (.settle k result)=some t) : Serial t := by
  unfold Queues.step at hste
  dsimp only at hste
  split at hste
  next root previous hk =>
    cases hste
    refine h.advance ?_ ?_ ?_
    · intro c hc hend
      rfl
    · intro d hd i c hlt hc hroo
      refine h.ordered i k c d hlt hc hd hroo fun hpha => ?_
      rw [hk] at hd
      cases hd
      cases hpha
    · intro root hroo result hpha
      cases hpha
  next => cases hste

theorem Serial.delete (h : Serial q) (root : String)
    (hend : ∀ (i : ℕ) (c : Call α), q.calls[i]? = some c → c.root=root → c.phase.ended=true) :
    Serial { q with mutationQueues := Function.update q.mutationQueues root none } := by
  constructor
  · intro other j hj
    by_cases heq : other=root
    · rw [heq] at hj
      simp at hj
    · simp only [Function.update_of_ne heq] at hj
      exact h.tail other j hj
  · intro other hnon i c hc hroo
    by_cases heq : other=root
    · exact hend i c hc (hroo.trans heq)
    · simp only [Function.update_of_ne heq] at hnon
      exact h.cleared other hnon i c hc hroo
  · exact h.first
  · exact h.chained
  · exact h.ordered


theorem Serial.left (h : Serial q) (hste : q.step (.leave k)=some t) : Serial t := by
  unfold Queues.step at hste
  dsimp only at hste
  split at hste
  next root previous result hk =>
    have hbef : ∀ (i : ℕ) (c : Call α), i<k → q.calls[i]? = some c → c.root=root → c.phase.ended=true :=
      fun i c hlt hc hroo => h.ordered i k c _ hlt hc hk hroo fun hpha => by cases hpha
    have hsta : ∀ d, q.calls[k]? = some d → ∀ (i : ℕ) (c : Call α), i<k → q.calls[i]? = some c → c.root=d.root →
        c.phase.ended=true := by
      intro d hd i c hlt hc hroo
      rw [hk] at hd
      cases hd
      exact hbef i c hlt hc hroo
    by_cases hlas : q.mutationQueues root=some k
    · rw [if_pos hlas] at hste
      cases hste
      -- the entry is deleted first: nothing on the root comes after its tail
      have hdel:=h.delete root (fun i c hc hroo => by
        rcases Nat.lt_trichotomy i k with hlt | rfl | hlt
        · exact hbef i c hlt hc hroo
        · rw [hk] at hc
          cases hc
          rfl
        · exact absurd hroo ((h.tail root k hlas).2 i c hlt hc))
      refine Serial.advance hdel (fun c hc hend => (rfl : Phase.ended (.returned result)=true)) hsta ?_
      intro other hoth result hpha
      by_cases heq : other=root
      · rw [heq] at hoth
        simp at hoth
      · simp only [Function.update_of_ne heq] at hoth
        obtain ⟨⟨c,hc,hroo,-⟩,-⟩ := h.tail other k hoth
        rw [hk] at hc
        cases hc
        exact heq hroo.symm
    · rw [if_neg hlas] at hste
      cases hste
      refine h.advance (fun c hc hend => rfl) hsta ?_
      intro other hoth result hpha
      obtain ⟨⟨c,hc,hroo,-⟩,-⟩ := h.tail other k hoth
      rw [hk] at hc
      cases hc
      exact hlas ((congrArg q.mutationQueues hroo).trans hoth)
  next => cases hste

theorem serial_reachable (h : (mutationSystem α).Reachable q) : Serial q := by
  refine h.invariant ?_ ?_
  · rintro s rfl
    constructor
    · intro root j hj
      cases hj
    · intro root hnon i c hc
      cases hc
    · intro j d hd
      cases hd
    · intro j d p hd
      cases hd
    · intro i j c d hlt hc
      cases hc
  · intro s action t hs hste
    cases action with
    | serializeMutation root => exact hs.called hste
    | start call => exact hs.started hste
    | settle call result => exact hs.settled hste
    | leave call => exact hs.left hste

/-- The result or error with which an action has ended. -/
def Phase.result : Phase α → Option α
  | .settled result => some result
  | .returned result => some result
  | _ => none

def Queues.result (q : Queues α) (i : ℕ) : Option α := (q.calls[i]?).bind fun c => c.phase.result

theorem result_of_ne (hne : i≠k) : (q.advance k phase).result i=q.result i := by
  have hget : (q.advance k phase).calls[i]? = q.calls[i]? := by
    unfold Queues.advance
    simp [Ne.symm hne]
  unfold Queues.result
  rw [hget]

theorem result_advance (hk : q.calls[k]? = some c) : (q.advance k phase).result k=phase.result := by
  unfold Queues.result
  rw [get_advance hk,if_pos rfl]
  rfl

/-- A step that does not settle an action changes no result. -/
theorem result_kept (hk : q.calls[k]? = some c) (hsam : phase.result=c.phase.result) :
    (q.advance k phase).result i=q.result i := by
  by_cases heq : i=k
  · subst heq
    rw [result_advance hk,hsam]
    simp [Queues.result,hk]
  · exact result_of_ne heq

theorem result_step {action : Action α} {result : α} (hste : q.step action=some t) :
    t.result i=some result ↔ q.result i=some result ∨ action=.settle i result := by
  cases action with
  | serializeMutation root =>
    cases hste
    have hsam : Queues.result ⟨q.calls++[⟨root,q.mutationQueues root,.waiting⟩],
        Function.update q.mutationQueues root (some q.calls.length)⟩ i=q.result i := by
      unfold Queues.result
      rcases Nat.lt_or_ge i q.calls.length with hlt | hge
      · rw [getElem?_append_left hlt]
      · rw [getElem?_append_right hge,getElem?_eq_none hge]
        cases i-q.calls.length with
        | zero => rfl
        | succ n => rfl
    rw [hsam]
    simp
  | start call =>
    unfold Queues.step at hste
    dsimp only at hste
    split at hste
    next root previous hk =>
      split at hste
      next hfre =>
        cases hste
        have hsam : (q.advance call .running).result i=q.result i := result_kept hk rfl
        rw [hsam]
        simp
      next => cases hste
    next => cases hste
  | settle call result' =>
    unfold Queues.step at hste
    dsimp only at hste
    split at hste
    next root previous hk =>
      cases hste
      by_cases heq : i=call
      · subst heq
        have hnon : q.result i=none := by
          simp [Queues.result,hk,Phase.result]
        rw [result_advance hk,hnon]
        simp [Phase.result]
      · rw [result_of_ne heq]
        simp [Ne.symm heq]
    next => cases hste
  | leave call =>
    unfold Queues.step at hste
    dsimp only at hste
    split at hste
    next root previous result' hk =>
      cases hste
      have hsam : (q.advance call (.returned result')).result i=q.result i := result_kept hk rfl
      split
      · show (q.advance call (.returned result')).result i=some result ↔ _
        rw [hsam]
        simp
      · rw [hsam]
        simp
    next => cases hste

variable {q₀ : Queues α} {actions : List (Action α)} {result : α}

theorem result_run (hini : (mutationSystem α).initial q₀) (h : (mutationSystem α).Run q₀ actions q) :
    q.result i=some result ↔ .settle i result ∈ actions := by
  induction h with
  | refl =>
    rw [hini]
    simp [Queues.result]
  | tail _ hste ih =>
    rw [result_step hste,ih]
    simp [eq_comm]

/-- Two running calls of one root are one call, a call starts when every earlier one on its root has ended, the result of a
call is that of its own action, and a root whose calls have all returned has no entry. -/
theorem mutations_serialised (hinit : (mutationSystem α).initial q₀) (h : (mutationSystem α).Run q₀ actions q) :
    (∀ (i j : ℕ) (c d : Call α), q.calls[i]? = some c → q.calls[j]? = some d → c.root=d.root →
      c.phase=.running → d.phase=.running → i=j) ∧
    (∀ (i j : ℕ) (c d : Call α), i<j → q.calls[i]? = some c → q.calls[j]? = some d → c.root=d.root →
      d.phase≠.waiting → c.phase.ended=true) ∧
    (∀ (i : ℕ) (result : α), q.result i=some result ↔ .settle i result ∈ actions) ∧
    ∀ root, (∀ (i : ℕ) (c : Call α), q.calls[i]? = some c → c.root=root → ∃ result, c.phase=.returned result) →
      q.mutationQueues root=none := by
  have hser : Serial q := serial_reachable ⟨q₀,actions,hinit,h⟩
  refine ⟨?_,hser.ordered,fun i result => result_run hinit h,?_⟩
  · intro i j c d hc hd hroo hrun hrun'
    have hnot {p m : ℕ} {a b : Call α} (hlt : p < m) (ha : q.calls[p]? = some a) (hb : q.calls[m]? = some b)
        (hsam : a.root=b.root) (hra : a.phase=.running) (hrb : b.phase=.running) : False := by
      have hend:=hser.ordered p m a b hlt ha hb hsam (by simp [hrb])
      rw [hra] at hend
      cases hend
    rcases Nat.lt_trichotomy i j with hlt | heq | hlt
    · exact (hnot hlt hc hd hroo hrun hrun').elim
    · exact heq
    · exact (hnot hlt hd hc hroo.symm hrun' hrun).elim
  · intro root hall
    cases hmap : q.mutationQueues root with
    | none => rfl
    | some j =>
      obtain ⟨⟨c,hc,hroo,hpha⟩,-⟩ := hser.tail root j hmap
      obtain ⟨result,hret⟩ := hall j c hc hroo
      exact absurd hret (hpha result)

end Serial

/-- The second call on a root is made while the action of the first one runs, and the first action fails. -/
theorem mutations_serialised_example :
    ∃ q : Queues (Except String ℕ), q.result 0=some (.error "EIO") ∧ q.result 1=some (.ok 7) ∧
      q.mutationQueues "/a"=none := by
  let actions : List (Action (Except String ℕ)) := [.serializeMutation "/a",.start 0,.serializeMutation "/a",
    .settle 0 (.error "EIO"),.leave 0,.start 1,.settle 1 (.ok 7),.leave 1]
  obtain ⟨q,hq,hcal⟩ : ∃ q, (mutationSystem (Except String ℕ)).exec ⟨[],fun _ => none⟩ actions=some q ∧
      q.calls=[⟨"/a",none,.returned (.error "EIO")⟩,⟨"/a",some 0,.returned (.ok 7)⟩] := ⟨_,rfl,rfl⟩
  obtain ⟨-,-,hres,hmap⟩ := mutations_serialised rfl (TransitionSystem.run_of_exec hq)
  refine ⟨q,(hres _ _).2 (by simp [actions]),(hres _ _).2 (by simp [actions]),hmap "/a" ?_⟩
  intro i c hc hroo
  rw [hcal] at hc
  match i with
  | 0 =>
    cases hc
    exact ⟨_,rfl⟩
  | 1 =>
    cases hc
    exact ⟨_,rfl⟩

end Qubicl.Control.Files
