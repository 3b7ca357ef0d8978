import Qubicl.Control.Lease.Fence

/-!
# Stale proofs

A proof is compared by epoch, generation and id. The ids are random, so what
keeps an old proof dead is the pair of epoch and generation: within an epoch
the generation grows with every grant and is bumped whenever a lease leaves the
slot, and `resetEpoch`, which starts again at generation zero, draws an epoch
that was not in use before (`FreshEpochs`, what `randomBytes(18)` is relied on
for).
-/

namespace Qubicl.Control
open LeaseManager Foundation List

def drawnEpoch : LeaseEvent → Option String
  | .epochDrawn epoch => some epoch
  | _ => none

def epochs (log : List LeaseEvent) : List String := log.filterMap drawnEpoch

def FreshEpochs (log : List LeaseEvent) : Prop := (epochs log).Nodup

def grantedPair : LeaseEvent → Option (String × ℕ)
  | .granted proof _ => some (proof.epoch,proof.generation)
  | _ => none

def grantedPairs (log : List LeaseEvent) : List (String × ℕ) := log.filterMap grantedPair

theorem epochs_append (new log : List LeaseEvent) : epochs (new++log)=epochs new++epochs log :=
  filterMap_append ..

theorem FreshEpochs.older {new log : List LeaseEvent} (h : FreshEpochs (new++log)) :
    FreshEpochs log := by
  unfold FreshEpochs at h
  rw [epochs_append] at h
  exact (nodup_append.mp h).2.1

theorem epochs_departure (lease : Option Lease) : epochs (departure lease)=[] := by
  cases lease <;> rfl

/- What a later state of the same run looks like: the log has grown, and within
one epoch the generation has not decreased. -/
def Later (m m' : LeaseManager) : Prop :=
  ∃ new, m'.log=new++m.log ∧
    ((epochs new=[] ∧ m'.epoch=m.epoch ∧ m.generation ≤ m'.generation) ∨ m'.epoch ∈ epochs new)

theorem Later.refl (m : LeaseManager) : Later m m := ⟨[],rfl,.inl ⟨rfl,rfl,Nat.le_refl _⟩⟩

theorem Later.trans {m₁ m₂ m₃ : LeaseManager} (h : Later m₁ m₂) (h' : Later m₂ m₃) :
    Later m₁ m₃ := by
  obtain ⟨new,hlog,hc⟩ := h
  obtain ⟨new',hlog',hc'⟩ := h'
  refine ⟨new'++new,by rw [hlog',hlog,append_assoc],?_⟩
  rw [epochs_append]
  rcases hc' with ⟨hn',he',hg'⟩ | hd'
  · rcases hc with ⟨hn,he,hg⟩ | hd
    · exact .inl ⟨by rw [hn,hn',append_nil],he'.trans he,Nat.le_trans hg hg'⟩
    · exact .inr (mem_append_right _ (he' ▸ hd))
  · exact .inr (mem_append_left _ hd')

variable {m m' : LeaseManager}

theorem later_move (hm : Move m m') : Later m m' := by
  cases hm with
  | clock | touch | enqueue | start | skip | finish | observe | takeovers =>
    exact ⟨[],rfl,.inl ⟨rfl,rfl,Nat.le_refl _⟩⟩
  | revoke targets generation _ grows _ =>
    exact ⟨departure m.lease,rfl,.inl ⟨epochs_departure _,rfl,grows⟩⟩
  | takeover _ =>
    refine ⟨departure m.lease++[.takeover],?_,.inl ⟨?_,rfl,Nat.le_succ _⟩⟩
    · simp [vacate,record,enqueueRevocations]
    · rw [epochs_append,epochs_departure]
      rfl
  | takeoverAgain _ => exact ⟨[.takeover],rfl,.inl ⟨rfl,rfl,Nat.le_refl _⟩⟩
  | releaseHuman =>
    refine ⟨[],rfl,.inl ⟨rfl,rfl,?_⟩⟩
    show m.generation ≤ if m.human then m.generation+1 else m.generation
    split <;> omega
  | resetEpoch epoch =>
    exact ⟨.epochDrawn epoch.text::departure m.lease,rfl,.inr mem_cons_self⟩
  | bump _ => exact ⟨[],rfl,.inl ⟨rfl,rfl,Nat.le_succ _⟩⟩
  | grant lease hg =>
    refine ⟨[.granted lease.toLeaseProof m.human],rfl,.inl ⟨rfl,rfl,?_⟩⟩
    show m.generation≤lease.generation
    have := hg.generation
    omega
  | serve waiter rest lease _ hg =>
    refine ⟨[.waiterGranted waiter.waiter lease.toLeaseProof,
      .granted lease.toLeaseProof m.human],rfl,.inl ⟨rfl,rfl,?_⟩⟩
    show m.generation≤lease.generation
    have := hg.generation
    omega
  | turnAway waiter => exact ⟨[.waiterRejected waiter.waiter],rfl,.inl ⟨rfl,rfl,Nat.le_succ _⟩⟩
  | queue waiter _ => exact ⟨[.queued waiter.waiter],rfl,.inl ⟨rfl,rfl,Nat.le_refl _⟩⟩
  | timeout waiter _ => exact ⟨[.waiterTimedOut waiter],rfl,.inl ⟨rfl,rfl,Nat.le_refl _⟩⟩
  | call p job target => exact ⟨[.invoked target],rfl,.inl ⟨rfl,rfl,Nat.le_refl _⟩⟩
  | resolve p job target => exact ⟨[.resolved target],rfl,.inl ⟨rfl,rfl,Nat.le_refl _⟩⟩
  | reject p job target => exact ⟨[.rejected target],rfl,.inl ⟨rfl,rfl,Nat.le_refl _⟩⟩

theorem later_moves (h : Moves m m') : Later m m' := by
  induction h with
  | refl => exact .refl m
  | tail _ hlas ih => exact ih.trans (later_move hlas)

theorem later_run {actions : List LeaseAction}
    (h : leaseSystem.Run m actions m') : Later m m' :=
  h.relates .refl (fun _ _ _ => .trans) (fun _ _ _ hs => later_moves (step_moves hs))

structure Dated (m : LeaseManager) : Prop where
  current : m.epoch ∈ epochs m.log
  granted : ∀ proof human, .granted proof human ∈ m.log →
    proof.epoch ∈ epochs m.log ∧ (proof.epoch=m.epoch → proof.generation ≤ m.generation)
  left : ∀ proof, .left proof ∈ m.log →
    proof.epoch ∈ epochs m.log ∧ (proof.epoch=m.epoch → proof.generation < m.generation)
  lease : ∀ lease, m.lease=some lease →
    lease.epoch=m.epoch ∧ lease.generation ≤ m.generation ∧
      ∀ proof, .left proof ∈ m.log → proof.epoch=m.epoch → proof.generation<lease.generation
  pairs : (grantedPairs m.log).Nodup

theorem Dated.keep {n : LeaseManager} (h : Dated m) (new : List LeaseEvent) (hlog : n.log=new++m.log)
    (hn : ∀ e ∈ new, drawnEpoch e=none ∧ grantedPair e=none ∧
      ∀ proof, e≠.left proof) (he : n.epoch=m.epoch) (hg : m.generation≤n.generation)
    (hl : ∀ lease, n.lease=some lease → ∃ old, m.lease=some old ∧
      old.toLeaseProof=lease.toLeaseProof) : Dated n := by
  have heps : epochs n.log=epochs m.log := by
    rw [hlog,epochs_append,show epochs new=[] from
      filterMap_eq_nil_iff.mpr fun e hm => (hn e hm).1,nil_append]
  have hgra : ∀ proof human, .granted proof human ∈ n.log → .granted proof human ∈ m.log := by
    intro proof human hm
    rw [hlog] at hm
    rcases mem_append.mp hm with hm | hm
    · cases (hn _ hm).2.1
    · exact hm
  have hlef : ∀ proof, .left proof ∈ n.log → .left proof ∈ m.log := by
    intro proof hm
    rw [hlog] at hm
    rcases mem_append.mp hm with hm | hm
    · exact absurd rfl ((hn _ hm).2.2 proof)
    · exact hm
  refine ⟨?_,?_,?_,?_,?_⟩
  · rw [he,heps]
    exact h.current
  · intro proof human hm
    obtain ⟨hin,hle⟩ := h.granted proof human (hgra proof human hm)
    exact ⟨heps ▸ hin,fun hp => Nat.le_trans (hle (hp.trans he)) hg⟩
  · intro proof hm
    obtain ⟨hin,hlt⟩ := h.left proof (hlef proof hm)
    exact ⟨heps ▸ hin,fun hp => Nat.lt_of_lt_of_le (hlt (hp.trans he)) hg⟩
  · intro lease hlea
    obtain ⟨old,ho,hp⟩ := hl lease hlea
    obtain ⟨h1,h2,h3⟩ := h.lease old ho
    have hgen : old.generation=lease.generation := congrArg LeaseProof.generation hp
    have hepo : old.epoch=lease.epoch := congrArg LeaseProof.epoch hp
    refine ⟨by rw [← hepo,h1,he],by omega,?_⟩
    intro proof hm hpe
    rw [← hgen]
    exact h3 proof (hlef proof hm) (hpe.trans he)
  · rw [hlog,grantedPairs,filterMap_append,filterMap_eq_nil_iff.mpr
      fun e hm => (hn e hm).2.1,nil_append]
    exact h.pairs

theorem Dated.vacate {n : LeaseManager} (h : Dated m) (rest : List LeaseEvent)
    (hlog : n.log=departure m.lease++(rest++m.log))
    (hr : ∀ e ∈ rest, drawnEpoch e=none ∧ grantedPair e=none ∧ ∀ proof, e≠.left proof) (he : n.epoch=m.epoch)
    (hl : n.lease=none) (hg : m.generation≤n.generation) (hb : m.lease.isSome → m.generation<n.generation) :
    Dated n := by
  have hres : Dated { m with log := rest++m.log, generation := n.generation } :=
    h.keep rest rfl hr rfl hg (fun lease hlea => ⟨lease,hlea,rfl⟩)
  cases hlea : m.lease with
  | none =>
    rw [hlea] at hlog
    exact hres.keep [] hlog (by simp) he (Nat.le_refl _) (fun lease hs => by rw [hl] at hs; cases hs)
  | some lease =>
    rw [hlea] at hlog
    have hlog' : n.log=.left lease.toLeaseProof::(rest++m.log) := hlog
    have hlt:=hb (by rw [hlea]; rfl)
    obtain ⟨h1,h2,_⟩ := h.lease lease hlea
    have hepo : epochs n.log=epochs (rest++m.log) := by
      rw [hlog']
      rfl
    refine ⟨?_,?_,?_,?_,?_⟩
    · rw [he,hepo]
      exact hres.current
    · intro proof human hm
      rw [hlog'] at hm
      rcases mem_cons.mp hm with hm | hm
      · cases hm
      obtain ⟨hin,hle⟩ := hres.granted proof human hm
      exact ⟨hepo ▸ hin,fun hp => hle (hp.trans he)⟩
    · intro proof hm
      rw [hlog'] at hm
      rcases mem_cons.mp hm with hm | hm
      · cases hm
        refine ⟨?_,fun _ => by omega⟩
        show lease.epoch ∈ epochs n.log
        rw [h1,hepo]
        exact hres.current
      · obtain ⟨hin,hlt⟩ := hres.left proof hm
        exact ⟨hepo ▸ hin,fun hp => hlt (hp.trans he)⟩
    · intro lease hs
      rw [hl] at hs
      cases hs
    · rw [hlog']
      exact hres.pairs

theorem Dated.reset {n : LeaseManager} (h : Dated m) (epoch : String)
    (hlog : n.log=.epochDrawn epoch::(departure m.lease++m.log)) (hf : FreshEpochs n.log) (he : n.epoch=epoch)
    (hl : n.lease=none) : Dated n := by
  have hepo : epochs n.log=epoch::epochs m.log := by
    rw [hlog]
    show epoch::epochs (departure m.lease++m.log)=_
    rw [epochs_append,epochs_departure]
    rfl
  have hnew : epoch ∉ epochs m.log := by
    rw [FreshEpochs,hepo] at hf
    exact (nodup_cons.mp hf).1
  have hold : ∀ e : String, e ∈ epochs m.log → e ∈ epochs n.log ∧ e≠n.epoch := by
    intro e hm
    refine ⟨hepo ▸ mem_cons_of_mem _ hm,?_⟩
    rintro rfl
    exact hnew (he ▸ hm)
  refine ⟨?_,?_,?_,?_,?_⟩
  · rw [he,hepo]
    exact mem_cons_self
  · intro proof human hm
    rw [hlog] at hm
    rcases mem_cons.mp hm with hm | hm
    · cases hm
    rcases mem_append.mp hm with hm | hm
    · exact absurd hm (departure_no_grant m.lease proof human)
    · obtain ⟨hin,hne⟩ := hold _ (h.granted proof human hm).1
      exact ⟨hin,fun hp => absurd hp hne⟩
  · intro proof hm
    rw [hlog] at hm
    rcases mem_cons.mp hm with hm | hm
    · cases hm
    have hin : proof.epoch ∈ epochs m.log := by
      rcases mem_append.mp hm with hm | hm
      · cases hlea : m.lease with
        | none =>
          rw [hlea] at hm
          cases hm
        | some lease =>
          rw [hlea] at hm
          cases mem_singleton.mp hm
          rw [(h.lease lease hlea).1]
          exact h.current
      · exact (h.left proof hm).1
    exact ⟨(hold _ hin).1,fun hp => absurd hp (hold _ hin).2⟩
  · intro lease hs
    rw [hl] at hs
    cases hs
  · have hpai : grantedPairs n.log=grantedPairs m.log := by
      rw [hlog]
      cases m.lease <;> rfl
    rw [hpai]
    exact h.pairs

theorem Dated.grant (h : Dated m) {lease : Lease} (hg : Grantable m lease) : Dated (Control.granted lease m) := by
  have hgen:=hg.generation
  have hepo : epochs (Control.granted lease m).log=epochs m.log := rfl
  refine ⟨h.current,?_,?_,?_,?_⟩
  · intro proof human hm
    rcases mem_cons.mp hm with hm | hm
    · cases hm
      refine ⟨?_,fun _ => Nat.le_refl _⟩
      show lease.epoch ∈ epochs m.log
      rw [hg.epoch]
      exact h.current
    · obtain ⟨hin,hle⟩ := h.granted proof human hm
      refine ⟨hin,fun hp => ?_⟩
      have := hle hp
      show proof.generation≤lease.generation
      omega
  · intro proof hm
    rcases mem_cons.mp hm with hm | hm
    · cases hm
    obtain ⟨hin,hlt⟩ := h.left proof hm
    refine ⟨hin,fun hp => ?_⟩
    have := hlt hp
    show proof.generation<lease.generation
    omega
  · intro other ho
    obtain rfl : lease=other := Option.some.inj ho
    refine ⟨hg.epoch,Nat.le_refl _,?_⟩
    intro proof hm hp
    rcases mem_cons.mp hm with hm | hm
    · cases hm
    have := (h.left proof hm).2 hp
    omega
  · refine nodup_cons.mpr ⟨?_,h.pairs⟩
    intro hm
    obtain ⟨e,he,hpai⟩ := mem_filterMap.mp hm
    cases e with
    | granted proof human =>
      simp only [grantedPair,Option.some.injEq,Prod.mk.injEq] at hpai
      have := (h.granted proof human he).2 (hpai.1.trans hg.epoch)
      omega
    | _ => cases hpai

theorem dated_create (now : ℤ) (epoch : Base64Url) : Dated (create now epoch) := by
  refine ⟨mem_singleton_self _,?_,?_,?_,nodup_nil⟩
  · intro proof human hm
    cases mem_singleton.mp hm
  · intro proof hm
    cases mem_singleton.mp hm
  · intro lease hs
    cases hs

theorem dated_move (h : Dated m) (hm : Move m m')
    (hf : FreshEpochs m'.log) : Dated m' := by
  have hsam : ∀ lease, m.lease=some lease → ∃ old, m.lease=some old ∧
      old.toLeaseProof=lease.toLeaseProof := fun lease hs => ⟨lease,hs,rfl⟩
  cases hm with
  | clock | enqueue | start | skip | finish | observe | takeovers =>
    exact h.keep [] rfl (by simp) rfl (Nat.le_refl _) hsam
  | touch lease expiresAt durationMs hl =>
    refine h.keep [] rfl (by simp) rfl (Nat.le_refl _) ?_
    intro new hs
    cases hs
    exact ⟨lease,hl,rfl⟩
  | revoke targets generation _ grows bumps =>
    exact h.vacate [] rfl (by simp) rfl rfl grows bumps
  | takeover _ =>
    exact h.vacate [.takeover] rfl (by simp [drawnEpoch,grantedPair]) rfl rfl (Nat.le_succ _)
      (fun _ => Nat.lt_succ_self _)
  | takeoverAgain _ =>
    exact h.keep [.takeover] rfl (by simp [drawnEpoch,grantedPair]) rfl (Nat.le_refl _) hsam
  | releaseHuman =>
    refine h.keep [] rfl (by simp) rfl ?_ hsam
    show m.generation ≤ if m.human then m.generation+1 else m.generation
    split <;> omega
  | resetEpoch epoch => exact h.reset epoch.text rfl hf rfl rfl
  | bump _ => exact h.keep [] rfl (by simp) rfl (Nat.le_succ _) hsam
  | grant lease hg => exact h.grant hg
  | serve waiter rest lease _ hg =>
    have hres : Dated { m with waiters := rest } :=
      h.keep [] rfl (by simp) rfl (Nat.le_refl _) hsam
    have hgra:=hres.grant
      ⟨hg.vacant,hg.fenced,hg.retried,hg.drawn,hg.generation,hg.epoch,hg.background⟩
    exact hgra.keep [.waiterGranted waiter.waiter lease.toLeaseProof] rfl
      (by simp [drawnEpoch,grantedPair]) rfl (Nat.le_refl _) (fun lease hs => ⟨lease,hs,rfl⟩)
  | turnAway waiter =>
    exact h.keep [.waiterRejected waiter.waiter] rfl (by simp [drawnEpoch,grantedPair]) rfl
      (Nat.le_succ _) hsam
  | queue waiter _ =>
    exact h.keep [.queued waiter.waiter] rfl (by simp [drawnEpoch,grantedPair]) rfl (Nat.le_refl _) hsam
  | timeout waiter _ =>
    exact h.keep [.waiterTimedOut waiter] rfl (by simp [drawnEpoch,grantedPair]) rfl (Nat.le_refl _) hsam
  | call p job target =>
    exact h.keep [.invoked target] rfl (by simp [drawnEpoch,grantedPair]) rfl (Nat.le_refl _) hsam
  | resolve p job target =>
    exact h.keep [.resolved target] rfl (by simp [drawnEpoch,grantedPair]) rfl (Nat.le_refl _) hsam
  | reject p job target =>
    exact h.keep [.rejected target] rfl (by simp [drawnEpoch,grantedPair]) rfl (Nat.le_refl _) hsam

/- The hypothesis is about the last state only: an epoch that is fresh at the
end of a run was fresh when it was drawn. -/
theorem dated_moves (h : Moves m m') (hd : FreshEpochs m.log → Dated m) : FreshEpochs m'.log → Dated m' := by
  refine preserved_by_moves (P := fun m => FreshEpochs m.log → Dated m) ?_ h hd
  intro m m' hm hmov hf
  obtain ⟨new,hlog,_⟩ := later_move hmov
  exact dated_move (hm (FreshEpochs.older (hlog ▸ hf))) hmov hf

variable {m : LeaseManager}

theorem reachable_dated (h : leaseSystem.Reachable m)
    (hf : FreshEpochs m.log) : Dated m := by
  revert hf
  refine h.invariant (P := fun m => FreshEpochs m.log → Dated m) ?_ ?_
  · rintro _ ⟨now,epoch,rfl⟩ _
    exact dated_create now epoch
  · intro s a t hs ht
    exact dated_moves (step_moves ht) hs

/-- Within one epoch of a run the generation does not decrease. -/
theorem generation_mono (h : Later m m') (hd : m.epoch ∈ epochs m.log) (hf : FreshEpochs m'.log)
    (he : m.epoch=m'.epoch) : m.generation ≤ m'.generation := by
  obtain ⟨new,hlog,⟨_,_,hg⟩ | hnew⟩ := h
  · exact hg
  · rw [FreshEpochs,hlog,epochs_append] at hf
    exact absurd rfl ((nodup_append.mp hf).2.2 _ (he ▸ hnew) _ hd)

theorem expireIfNeeded_log (m : LeaseManager) : ∃ new, m.expireIfNeeded.log=new++m.log ∧
    epochs new=[] := by
  unfold expireIfNeeded
  split
  · exact ⟨[],rfl,rfl⟩
  next lease hl =>
    split
    · exact ⟨[],rfl,rfl⟩
    · exact ⟨departure m.lease,rfl,epochs_departure _⟩

variable {proof : LeaseProof}

theorem verify_stale (hd : Dated m.expireIfNeeded) (hp : .left proof ∈ m.expireIfNeeded.log) (renewActivity : Bool) :
    (verify proof renewActivity m).2 = .error staleLease := by
  unfold verify
  dsimp only
  split
  · rfl
  next lease hl =>
    split
    · rfl
    next hn =>
      obtain ⟨he,_,hg⟩ : proof.epoch=m.expireIfNeeded.epoch ∧ proof.id=lease.id ∧
          proof.generation=lease.generation := by
        simpa only [ne_eq,not_or,Decidable.not_not] using hn
      have := (hd.lease lease hl).2.2 proof hp he
      omega

theorem renew_of_verify {error : QubiclError} (h : (verify proof false m).2 = .error error) (durationSeconds : ℤ) :
    (renew proof durationSeconds m).2 = .error error := by
  unfold renew
  split
  next he =>
    rw [he] at h
    cases h
    rfl
  next ho =>
    rw [ho] at h
    cases h

theorem Fences.left (h : Fences m) {human : Bool} (hg : .granted proof human ∈ m.log)
    (hl : m.lease.map Lease.toLeaseProof≠some proof) : .left proof ∈ m.log := by
  obtain ⟨since,before,hs⟩ := append_of_mem hg
  have hlef : LeaseEvent.left proof ∈ since := by
    cases h.fence since proof human before hs with
    | held h => exact absurd h hl
    | owed h _ => exact h
    | called t _ hsub _ => exact hsub.subset (mem_cons_of_mem _ mem_cons_self)
    | done h =>
      obtain ⟨t,_,hsub⟩ := h
      exact hsub.subset (mem_cons_of_mem _ (mem_cons_of_mem _ mem_cons_self))
  rw [hs]
  exact mem_append_left _ hlef

/-- In every run whose epochs are fresh, no two grants share epoch and
generation, the generation does not decrease within an epoch, and a lease that
was granted and is not in the slot any more is rejected ever after. -/
theorem stale_proofs_stay_dead {m m' : LeaseManager} {actions : List LeaseAction}
    (h : leaseSystem.Reachable m) (hr : leaseSystem.Run m actions m') (hf : FreshEpochs m'.log) :
    (grantedPairs m'.log).Nodup ∧
    (m.epoch=m'.epoch → m.generation ≤ m'.generation) ∧
    ∀ proof human, .granted proof human ∈ m.log →
      m.lease.map Lease.toLeaseProof≠some proof →
      ∀ renewActivity durationSeconds,
        (verify proof renewActivity m').2 = .error staleLease ∧
        (renew proof durationSeconds m').2 = .error staleLease := by
  have hlat:=later_run hr
  obtain ⟨new,hlog,_⟩ := hlat
  have hfm : FreshEpochs m.log := FreshEpochs.older (hlog ▸ hf)
  refine ⟨(reachable_dated (h.run hr) hf).pairs,?_,?_⟩
  · intro he
    exact generation_mono (later_run hr) (reachable_dated h hfm).current hf he
  · intro proof human hg hl renewActivity durationSeconds
    obtain ⟨expired,hexp,hnon⟩ := expireIfNeeded_log m'
    have hfre : FreshEpochs m'.expireIfNeeded.log := by
      rw [FreshEpochs,hexp,epochs_append,hnon]
      exact hf
    have hd : Dated m'.expireIfNeeded :=
      dated_moves (expireIfNeeded_moves m') (reachable_dated (h.run hr)) hfre
    have hlef : .left proof ∈ m'.expireIfNeeded.log := by
      rw [hexp,hlog]
      exact mem_append_right _ (mem_append_right _ ((reachable_fences h).left hg hl))
    exact ⟨verify_stale hd hlef renewActivity,
      renew_of_verify (verify_stale hd hlef false) durationSeconds⟩

def staleRun : List LeaseAction := [.acquire 60 none ⟨"a",alphabet_a⟩,.release ⟨"a",1,"e"⟩]

def staleRunAfter : List LeaseAction :=
  [.startRevocation 0,.settleHandler 0 (.resolved 0),.observeRevocation 0 ⟨"b",alphabet_b⟩,
    .resetEpoch ⟨"f",alphabet_f⟩,.startRevocation 1,.settleHandler 1 (.resolved 0),
    .observeRevocation 1 ⟨"b",alphabet_b⟩,.acquire 60 none ⟨"a",alphabet_a⟩]

theorem stale_proofs_stay_dead_run : ∃ m, m.log.head? = some (.granted ⟨"a",1,"f"⟩ false) ∧
    (verify ⟨"a",1,"e"⟩ true m).2 = .error staleLease := by
  have hfir : (leaseSystem.exec (create 0 ⟨"e",alphabet_of_all (by decide)⟩) staleRun).map
      (fun m => (decide (.granted ⟨"a",1,"e"⟩ false ∈ m.log),m.lease,
        (leaseSystem.exec m staleRunAfter).map LeaseManager.log)) =
      some (true,none,some [.granted ⟨"a",1,"f"⟩ false,.resolved ⟨none,true⟩,
        .invoked ⟨none,true⟩,.epochDrawn "f",.resolved ⟨some ⟨"a",1,"e"⟩,false⟩,
        .invoked ⟨some ⟨"a",1,"e"⟩,false⟩,.left ⟨"a",1,"e"⟩,
        .granted ⟨"a",1,"e"⟩ false,.epochDrawn "e"]) := by
    decide
  obtain ⟨m,hm,hsee⟩ := reachable_of_exec hfir
  simp only [Prod.mk.injEq,decide_eq_true_eq] at hsee
  obtain ⟨hg,hl,hexe⟩ := hsee
  obtain ⟨m',hm',hlog⟩ := Option.map_eq_some_iff.mp hexe
  have hf : FreshEpochs m'.log := by
    rw [FreshEpochs,hlog]
    decide
  refine ⟨m',by rw [hlog]; rfl,?_⟩
  exact ((stale_proofs_stay_dead hm (TransitionSystem.run_of_exec hm') hf).2.2 _ _ hg
    (by rw [hl]; nofun) true 60).1

end Qubicl.Control
