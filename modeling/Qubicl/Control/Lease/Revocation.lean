import Qubicl.Control.Lease.System
import Qubicl.Foundation.Text

/-!
# The revocation queue

The promises of `enqueueRevocations` form one chain: a queued function starts only after everything queued before it has
settled, and `revocation` is cleared only when nothing is left to settle (`Chain`).
-/

namespace Qubicl.Control
open LeaseManager Foundation List

/- No colon in the two strings that `deduplicateTargets` separates by colons. -/
structure Genuine (proof : LeaseProof) : Prop where
  epoch : ':' ∉ proof.epoch.toList
  id : ':' ∉ proof.id.toList

theorem Base64Url.no_colon (s : Base64Url) : ':' ∉ s.text.toList := by
  intro h
  have hc:=s.alphabet _ h
  revert hc
  decide

theorem digits_no_colon (n : ℕ) : ':' ∉ Nat.toDigits 10 n := by
  intro h
  have hd:=digits_isDigit h
  revert hd
  decide

theorem key_colons (proof : LeaseProof) (invokeWithoutProof : Bool) :
    (RevocationTarget.key ⟨some proof,invokeWithoutProof⟩).count ':' =
      proof.epoch.toList.count ':' + proof.id.toList.count ':' + 2 := by
  have hd : (Nat.toDigits 10 proof.generation).count ':' = 0 :=
    count_eq_zero.mpr (digits_no_colon _)
  simp only [RevocationTarget.key,count_append,count_cons_self,hd]
  omega

variable {t : RevocationTarget} {m : LeaseManager} {job : RevocationJob}

/-- A target with the key of a lease that the manager granted carries exactly
the proof of that lease, also when a caller made the target up. -/
theorem proof_of_key {proof : LeaseProof} (hg : Genuine proof) {t' : RevocationTarget} (ht : t.proof=some proof)
    (hk : t'.key=t.key) : t'.proof=some proof := by
  obtain ⟨tp,tw⟩ := t
  obtain ⟨tp',tw'⟩ := t'
  subst ht
  have hcou : List.count ':' (RevocationTarget.key ⟨tp',tw'⟩)=2 := by
    rw [hk,key_colons,count_eq_zero.mpr hg.epoch,count_eq_zero.mpr hg.id]
  cases tp' with
  | none =>
    exfalso
    cases tw' <;> revert hcou <;> decide
  | some other =>
    rw [key_colons] at hcou
    have he : ':' ∉ other.epoch.toList := count_eq_zero.mp (by omega)
    obtain ⟨hepo,hres⟩ := separator_inj he hg.epoch hk
    obtain ⟨hgen,hid⟩ := separator_inj (digits_no_colon _) (digits_no_colon _) hres
    have hgee:=digits_injective hgen
    cases other
    cases proof
    simp only [String.toList_inj] at hepo hid
    simp only at hgee
    subst hepo hid hgee
    rfl

theorem go_keeps_key (seen : List (List Char)) (targets : List RevocationTarget) (h : t ∈ targets) :
    t.key ∈ seen ∨ ∃ t' ∈ deduplicateTargets.go seen targets, t'.key=t.key := by
  induction targets generalizing seen with
  | nil => cases h
  | cons u rest ih =>
    unfold deduplicateTargets.go
    rcases mem_cons.mp h with rfl | h
    · split
      next hs => exact .inl hs
      · exact .inr ⟨t,mem_cons_self,rfl⟩
    · split
      · exact ih seen h
      · rcases ih (u.key::seen) h with hs | ⟨t',ht',hk⟩
        · rcases mem_cons.mp hs with hu | hs
          · exact .inr ⟨u,mem_cons_self,hu.symm⟩
          · exact .inl hs
        · exact .inr ⟨t',mem_cons_of_mem _ ht',hk⟩

theorem go_nodup (seen : List (List Char)) (targets : List RevocationTarget) :
    ((deduplicateTargets.go seen targets).map RevocationTarget.key).Nodup ∧
      ∀ t ∈ deduplicateTargets.go seen targets, t.key ∉ seen := by
  induction targets generalizing seen with
  | nil => exact ⟨nodup_nil,fun _ h => by cases h⟩
  | cons u rest ih =>
    unfold deduplicateTargets.go
    split
    · exact ih seen
    next hu =>
      obtain ⟨hn,hs⟩ := ih (u.key::seen)
      refine ⟨nodup_cons.mpr ⟨?_,hn⟩,?_⟩
      · intro hm
        obtain ⟨t,ht,hk⟩ := mem_map.mp hm
        exact hs t ht (hk ▸ mem_cons_self)
      · intro t ht
        rcases mem_cons.mp ht with rfl | ht
        · exact hu
        · exact fun hm => hs t ht (mem_cons_of_mem _ hm)

theorem go_keeps_first (seen : List (List Char)) (first rest : List RevocationTarget)
    (hn : (first.map RevocationTarget.key).Nodup) (hs : ∀ t ∈ first, t.key ∉ seen) :
    ∀ t ∈ first, t ∈ deduplicateTargets.go seen (first++rest) := by
  induction first generalizing seen with
  | nil => exact fun _ h => by cases h
  | cons u first ih =>
    obtain ⟨hu,hn⟩ := nodup_cons.mp hn
    intro t ht
    have hkep : deduplicateTargets.go seen (u::first++rest) =
        u::deduplicateTargets.go (u.key::seen) (first++rest) := by
      simp only [cons_append,deduplicateTargets.go,hs u mem_cons_self,if_false]
    rw [hkep]
    rcases mem_cons.mp ht with rfl | ht
    · exact mem_cons_self
    · refine mem_cons_of_mem _ (ih (u.key::seen) hn ?_ t ht)
      intro v hv hm
      rcases mem_cons.mp hm with hk | hm
      · exact hu (mem_map.mpr ⟨v,hv,hk⟩)
      · exact hs v (mem_cons_of_mem _ hv) hm

theorem deduplicate_keeps_key {targets : List RevocationTarget} (h : t ∈ targets) :
    ∃ t' ∈ deduplicateTargets targets, t'.key=t.key := by
  rcases go_keeps_key [] targets h with h | h
  · cases h
  · exact h

/-- The failed targets come first and differ in their keys: none is dropped. -/
theorem deduplicate_keeps_failed {failed : List RevocationTarget}
    (hn : (failed.map RevocationTarget.key).Nodup) (targets : List RevocationTarget) :
    ∀ t ∈ failed, t ∈ deduplicateTargets (failed++targets) :=
  go_keeps_first [] failed targets hn (fun _ _ h => by cases h)

structure Chain (m : LeaseManager) : Prop where
  bounded : ∀ p job, m.jobs p=some job → p < m.nextPromise
  idle : m.revocation=none → ∀ p job, m.jobs p=some job → job.phase.settled=true
  latest : ∀ p, m.revocation=some p → p+1=m.nextPromise
  linked : ∀ p job q, m.jobs p=some job → job.previous=some q → q+1=p
  first : ∀ p job, m.jobs p=some job → job.previous=none →
    ∀ q<p, ∀ before, m.jobs q=some before → before.phase.settled=true
  ordered : ∀ p job, m.jobs p=some job → job.phase≠.waiting →
    ∀ q<p, ∀ before, m.jobs q=some before → before.phase.settled=true

theorem Chain.congr {n : LeaseManager} (h : Chain m) (hj : n.jobs=m.jobs) (hr : n.revocation=m.revocation)
    (hp : n.nextPromise=m.nextPromise) : Chain n := by
  obtain ⟨h1,h2,h3,h4,h5,h6⟩ := h
  constructor <;> simp only [hj,hr,hp] <;> assumption

theorem settled_not_waiting {phase : RevocationPhase} (h : phase.settled=true) :
    phase≠.waiting := by
  rintro rfl
  cases h

theorem Chain.enqueue (h : Chain m) (targets : List RevocationTarget) : Chain (enqueueRevocations targets m) := by
  have hnew : (enqueueRevocations targets m).jobs m.nextPromise =
      some ⟨m.revocation,targets,.waiting,false⟩ := Function.update_self ..
  have hold : ∀ q, q≠m.nextPromise → (enqueueRevocations targets m).jobs q=m.jobs q :=
    fun q hq => Function.update_of_ne hq ..
  have hlt : ∀ q job, m.jobs q=some job → q≠m.nextPromise := by
    intro q job hj he
    have := h.bounded q job hj
    omega
  have hcas : ∀ q job, (enqueueRevocations targets m).jobs q=some job →
      (q=m.nextPromise ∧ job=⟨m.revocation,targets,.waiting,false⟩) ∨
      (q≠m.nextPromise ∧ m.jobs q=some job) := by
    intro q job hj
    by_cases hq : q=m.nextPromise
    · subst hq
      rw [hnew] at hj
      exact .inl ⟨rfl,(Option.some.inj hj).symm⟩
    · rw [hold q hq] at hj
      exact .inr ⟨hq,hj⟩
  constructor
  · intro q job hj
    change q < m.nextPromise+1
    rcases hcas q job hj with ⟨rfl,_⟩ | ⟨_,hj⟩
    · omega
    · have := h.bounded q job hj
      omega
  · intro hr
    cases hr
  · intro q hq
    obtain rfl : m.nextPromise=q := Option.some.inj hq
    rfl
  · intro q job r hj hp
    rcases hcas q job hj with ⟨rfl,rfl⟩ | ⟨_,hj⟩
    · exact h.latest r hp
    · exact h.linked q job r hj hp
  · intro q job hj hp r hr before hb
    rcases hcas q job hj with ⟨rfl,rfl⟩ | ⟨hne,hj⟩
    · rw [hold r (by omega)] at hb
      exact h.idle hp r before hb
    · have hq:=h.bounded q job hj
      rw [hold r (by omega)] at hb
      exact h.first q job hj hp r hr before hb
  · intro q job hj hw r hr before hb
    rcases hcas q job hj with ⟨rfl,rfl⟩ | ⟨hne,hj⟩
    · exact absurd rfl hw
    · have hq:=h.bounded q job hj
      rw [hold r (by omega)] at hb
      exact h.ordered q job hj hw r hr before hb

theorem Chain.set_phase (h : Chain m) {p : ℕ} (hj : m.jobs p=some job) (unsettled : job.phase.settled=false)
    (before : ∀ q<p, ∀ b, m.jobs q=some b → b.phase.settled=true) (phase : RevocationPhase) :
    Chain (m.setPhase p job phase) := by
  have hold : ∀ q, q≠p → (m.setPhase p job phase).jobs q=m.jobs q :=
    fun q hq => Function.update_of_ne hq ..
  have hcas : ∀ q b, (m.setPhase p job phase).jobs q=some b →
      (q=p ∧ b = { job with phase := phase }) ∨ (q≠p ∧ m.jobs q=some b) := by
    intro q b hb
    by_cases hq : q=p
    · subst hq
      have he : (m.setPhase q job phase).jobs q=some { job with phase := phase } :=
        Function.update_self ..
      exact .inl ⟨rfl,Option.some.inj (hb.symm.trans he)⟩
    · rw [hold q hq] at hb
      exact .inr ⟨hq,hb⟩
  -- Nothing that started or is first in the chain comes after an unsettled job.
  have hlas : ∀ q b, m.jobs q=some b →
      (∀ r<q, ∀ c, m.jobs r=some c → c.phase.settled=true) → ¬ p<q := by
    intro q b _ hall hlt
    have hs:=hall p hlt job hj
    rw [unsettled] at hs
    cases hs
  constructor
  · intro q b hb
    rcases hcas q b hb with ⟨rfl,_⟩ | ⟨_,hb⟩
    · exact h.bounded q job hj
    · exact h.bounded q b hb
  · intro hr
    have hs:=h.idle hr p job hj
    rw [unsettled] at hs
    cases hs
  · exact h.latest
  · intro q b r hb hp
    rcases hcas q b hb with ⟨rfl,rfl⟩ | ⟨_,hb⟩
    · exact h.linked q job r hj hp
    · exact h.linked q b r hb hp
  · intro q b hb hp r hr c hc
    rcases hcas q b hb with ⟨rfl,rfl⟩ | ⟨_,hb⟩
    · rw [hold r (by omega)] at hc
      exact before r hr c hc
    · have hall:=h.first q b hb hp
      have hnot:=hlas q b hb hall
      rw [hold r (by omega)] at hc
      exact hall r hr c hc
  · intro q b hb hw r hr c hc
    rcases hcas q b hb with ⟨rfl,rfl⟩ | ⟨_,hb⟩
    · rw [hold r (by omega)] at hc
      exact before r hr c hc
    · have hall:=h.ordered q b hb hw
      have hnot:=hlas q b hb hall
      rw [hold r (by omega)] at hc
      exact hall r hr c hc

theorem Chain.observe (h : Chain m) {p : ℕ} (hj : m.jobs p=some job) (hs : job.phase.settled=true) :
    Chain { m with
      jobs := Function.update m.jobs p (some { job with observed := true })
      revocation := if m.revocation=some p then none else m.revocation } := by
  have hcas : ∀ q b, Function.update m.jobs p (some { job with observed := true }) q=some b →
      ∃ b', m.jobs q=some b' ∧ b'.phase=b.phase ∧ b'.previous=b.previous := by
    intro q b hb
    by_cases hq : q=p
    · subst hq
      rw [Function.update_self] at hb
      cases hb
      exact ⟨job,hj,rfl,rfl⟩
    · rw [Function.update_of_ne hq] at hb
      exact ⟨b,hb,rfl,rfl⟩
  constructor
  · intro q b hb
    obtain ⟨b',hb',_⟩ := hcas q b hb
    exact h.bounded q b' hb'
  · intro hr q b hb
    obtain ⟨b',hb',hpha,_⟩ := hcas q b hb
    rw [← hpha]
    dsimp only at hr
    split at hr
    next hp =>
      -- the last promise of the chain has settled, hence all of them
      have hl:=h.latest p hp
      have hq:=h.bounded q b' hb'
      by_cases he : q=p
      · subst he
        rw [hj] at hb'
        cases hb'
        exact hs
      · exact h.ordered p job hj (settled_not_waiting hs) q (by omega) b' hb'
    · exact h.idle hr q b' hb'
  · intro q hq
    dsimp only at hq
    split at hq
    · cases hq
    · exact h.latest q hq
  · intro q b r hb hp
    obtain ⟨b',hb',_,hpre⟩ := hcas q b hb
    exact h.linked q b' r hb' (hpre.trans hp)
  · intro q b hb hp r hr c hc
    obtain ⟨b',hb',_,hpre⟩ := hcas q b hb
    obtain ⟨c',hc',hpha,_⟩ := hcas r c hc
    rw [← hpha]
    exact h.first q b' hb' (hpre.trans hp) r hr c' hc'
  · intro q b hb hw r hr c hc
    obtain ⟨b',hb',hpha',_⟩ := hcas q b hb
    obtain ⟨c',hc',hpha,_⟩ := hcas r c hc
    rw [← hpha]
    exact h.ordered q b' hb' (hpha' ▸ hw) r hr c' hc'

theorem chain_create (now : ℤ) (epoch : Base64Url) : Chain (create now epoch) := by
  constructor <;> intros <;> contradiction

theorem Chain.ready (h : Chain m) {p : ℕ} (hj : m.jobs p=some job)
    (ready : ∀ q, job.previous=some q → ∃ before, m.jobs q=some before ∧
      before.phase.settled=true) : ∀ q<p, ∀ b, m.jobs q=some b → b.phase.settled=true := by
  intro q hq b hb
  cases hp : job.previous with
  | none => exact h.first p job hj hp q hq b hb
  | some r =>
    obtain ⟨before,hbef,hs⟩ := ready r hp
    have hr:=h.linked p job r hj hp
    by_cases he : q=r
    · subst he
      rw [hbef] at hb
      cases hb
      exact hs
    · exact h.ordered r before hbef (settled_not_waiting hs) q (by omega) b hb

theorem chain_move {m' : LeaseManager} (h : Chain m) (hm : Move m m') : Chain m' := by
  cases hm with
  | revoke targets generation _ _ _ =>
    exact Chain.enqueue (h.congr (n := { m.vacate with generation := generation }) rfl rfl rfl) _
  | enqueue targets => exact h.enqueue targets
  | takeover _ =>
    exact Chain.enqueue (h.congr (n := { (m.record [.takeover]).vacate with
      human := true, generation := m.generation+1 }) rfl rfl rfl) _
  | resetEpoch epoch =>
    refine Chain.enqueue (h.congr ?_ ?_ ?_) _ <;> rfl
  | start p job hj hw ready =>
    exact Chain.set_phase (m := { m with failedRevocations := [] }) (h.congr rfl rfl rfl) hj
      (by rw [hw]; rfl) (h.ready hj ready) _
  | skip p job target rest terminated failure hj hp _ =>
    exact h.set_phase hj (by rw [hp]; rfl) (h.ordered p job hj (by rw [hp]; nofun)) _
  | call p job target rest terminated failure hj hp _ =>
    exact (h.set_phase hj (by rw [hp]; rfl) (h.ordered p job hj (by rw [hp]; nofun)) _).congr
      rfl rfl rfl
  | finish p job terminated failure hj hp =>
    exact h.set_phase hj (by rw [hp]; rfl) (h.ordered p job hj (by rw [hp]; nofun)) _
  | resolve p job target rest terminated n failure hj hp =>
    exact Chain.set_phase (m := m.record [.resolved target]) (h.congr rfl rfl rfl) hj
      (by rw [hp]; rfl) (h.ordered p job hj (by rw [hp]; nofun)) _
  | reject p job target rest terminated failure failure' hj hp _ =>
    exact Chain.set_phase (m := { m.record [.rejected target] with
      failedRevocations := m.failedRevocations++[target] }) (h.congr rfl rfl rfl) hj
      (by rw [hp]; rfl) (h.ordered p job hj (by rw [hp]; nofun)) _
  | observe p job hj hs _ => exact h.observe hj hs
  | clock | touch | takeoverAgain | releaseHuman | bump | grant | serve | turnAway | queue
  | timeout | takeovers => exact h.congr rfl rfl rfl

end Qubicl.Control
