import Qubicl.Control.Lease.System
import Qubicl.Foundation.History

/-!
# The lease slot and its history

The log says what the slot held at every moment of the run: `slot` reads it off a history, and `slot_log` shows that it reads
off the current lease.
-/

namespace Qubicl.Control
open LeaseManager Foundation

def slot : List LeaseEvent → Option LeaseProof
  | [] => none
  | .granted proof _::_ => some proof
  | .left _::_ => none
  | _::older => slot older

theorem slot_departure (lease : Option Lease) (log : List LeaseEvent)
    (h : slot log=lease.map Lease.toLeaseProof) : slot (departure lease++log)=none := by
  cases lease with
  | none => exact h
  | some lease => rfl

structure SlotHistory (m : LeaseManager) : Prop where
  current : slot m.log=m.lease.map Lease.toLeaseProof
  vacant : ∀ after proof human before, m.log=after++.granted proof human::before →
    slot before=none

variable {m : LeaseManager}

theorem SlotHistory.keep {n : LeaseManager} (h : SlotHistory m) (new : List LeaseEvent) (hlog : n.log=new++m.log)
    (hgra : ∀ proof human, .granted proof human ∉ new) (hc : slot n.log=n.lease.map Lease.toLeaseProof) :
    SlotHistory n := by
  refine ⟨hc,?_⟩
  intro after proof human before hs
  rw [hlog] at hs
  obtain ⟨mid,_,hm⟩ := split_old (hgra proof human) hs
  exact h.vacant mid proof human before hm

theorem SlotHistory.grant (h : SlotHistory m) {lease : Lease} (hg : Grantable m lease) :
    SlotHistory (granted lease m) := by
  refine ⟨rfl,?_⟩
  intro after proof human before hs
  rcases split_cons hs with ⟨_,_,rfl⟩ | ⟨mid,_,hm⟩
  · rw [h.current,hg.vacant]
    rfl
  · exact h.vacant mid proof human before hm

theorem departure_no_grant (lease : Option Lease) (proof : LeaseProof) (human : Bool) :
    LeaseEvent.granted proof human ∉ departure lease := by
  cases lease <;> simp [departure]

theorem slotHistory_create (now : ℤ) (epoch : Base64Url) : SlotHistory (create now epoch) := by
  refine ⟨rfl,?_⟩
  intro after proof human before hs
  have hm : LeaseEvent.granted proof human ∈ (create now epoch).log := hs ▸ by simp
  cases List.mem_singleton.mp hm

theorem slotHistory_move {m' : LeaseManager} (h : SlotHistory m) (hm : Move m m') : SlotHistory m' := by
  cases hm with
  | clock | releaseHuman | bump | takeovers | enqueue | start | skip | finish | observe =>
    exact h.keep [] rfl (by simp) h.current
  | touch lease expiresAt durationMs hl =>
    refine h.keep [] rfl (by simp) ?_
    rw [show m.log=m.log from rfl,h.current,hl]
    rfl
  | takeoverAgain _ => exact h.keep [.takeover] rfl (by simp) h.current
  | turnAway waiter rest _ _ =>
    exact h.keep [.waiterRejected waiter.waiter] rfl (by simp) h.current
  | queue waiter _ => exact h.keep [.queued waiter.waiter] rfl (by simp) h.current
  | timeout waiter _ => exact h.keep [.waiterTimedOut waiter] rfl (by simp) h.current
  | grant lease hg => exact h.grant hg
  | serve waiter rest lease _ hg =>
    have hres : SlotHistory { m with waiters := rest } := h.keep [] rfl (by simp) h.current
    have hgra:=hres.grant
      ⟨hg.vacant,hg.fenced,hg.retried,hg.drawn,hg.generation,hg.epoch,hg.background⟩
    exact hgra.keep [.waiterGranted waiter.waiter lease.toLeaseProof] rfl (by simp) rfl
  | revoke targets generation _ _ _ =>
    exact h.keep (departure m.lease) rfl (departure_no_grant m.lease)
      (slot_departure m.lease m.log h.current)
  | takeover _ =>
    refine h.keep (departure m.lease++[.takeover]) ?_ ?_ ?_
    · simp [vacate,record,enqueueRevocations]
    · simp [departure_no_grant]
    · exact slot_departure m.lease (.takeover::m.log) h.current
  | resetEpoch epoch =>
    refine h.keep (.epochDrawn epoch.text::departure m.lease) rfl ?_ ?_
    · simp [departure_no_grant]
    · exact slot_departure m.lease m.log h.current
  | call p job target => exact h.keep [.invoked target] rfl (by simp) h.current
  | resolve p job target => exact h.keep [.resolved target] rfl (by simp) h.current
  | reject p job target => exact h.keep [.rejected target] rfl (by simp) h.current

theorem reachable_slotHistory (h : leaseSystem.Reachable m) : SlotHistory m :=
  reachable_of_moves slotHistory_create (fun _ _ => slotHistory_move) h

end Qubicl.Control
