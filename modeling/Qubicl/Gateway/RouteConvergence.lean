import Qubicl.Gateway.RouteStore

/-!
# When the served routes are those of the file

After the last change a reload always brings them. A poll reads only where the fingerprint is another than the last one, so
it needs that the last fingerprint was that of the content.
-/

namespace Qubicl.Gateway.RouteFile
open Foundation List Option

section
variable {Raw Fingerprint Routes : Type} {parse : Raw → Option Routes} {s s' : RouteStore Raw Fingerprint Routes}
  {file : Version Raw Fingerprint} {as : List (Action Raw Fingerprint)} {a : Action Raw Fingerprint} {told : Prop}

/-- No change and no failure. -/
def Action.isStill : Action Raw Fingerprint → Bool
  | .replace _ => false
  | .fail _ => false
  | _ => true

/-- What a job can have seen of a file that does not change. -/
def Job.Fits (file : Version Raw Fingerprint) : Job Raw Fingerprint → Prop
  | .stating raw => raw=file.raw
  | .stated raw fingerprint => raw=file.raw ∧ fingerprint=some file.fingerprint
  | .polled fingerprint => fingerprint=file.fingerprint
  | _ => True

def Loaded (parse : Raw → Option Routes) (file : Version Raw Fingerprint) (s : RouteStore Raw Fingerprint Routes) : Prop :=
  ∀ routes, parse file.raw=some routes → s.routes=some routes

/- What a run of further reloads and polls has reached. A poll is counted on only where the fingerprints tell. -/
structure Later (told : Prop) (parse : Raw → Option Routes) (file : Version Raw Fingerprint)
    (as : List (Action Raw Fingerprint)) (s : RouteStore Raw Fingerprint Routes) : Prop where
  kept : Kept parse s
  reliable : told → Told parse s
  unchanged : s.file=file
  fits : ∀ i job, s.jobs i=some job → job.Fits file
  course : Action.reload ∈ as ∨ told ∧ Action.tick ∈ as →
    Loaded parse file s ∨ ∃ i job, s.jobs i=some job ∧ (job.isReload=true ∨ told)

theorem Change.fits {i : ℕ} {job : Job Raw Fingerprint} (h : Change s a i (some job)) (hsti : a.isStill=true)
    (hfit : ∀ i job, s.jobs i=some job → job.Fits s.file) : job.Fits s.file := by
  cases h with
  | reload => exact trivial
  | tick => exact trivial
  | read i hjob => exact rfl
  | stat i raw hjob => exact ⟨hfit i _ hjob,rfl⟩
  | poll i hjob => exact rfl
  | failStat i raw hjob => cases hsti
  | differs i fingerprint hjob hne => exact trivial

theorem Told.loaded (h : Told parse s) (hcur : s.file ∈ s.history) (hlas : s.lastFingerprint=some s.file.fingerprint) :
    Loaded parse s.file s := by
  intro routes hrou
  obtain ⟨old,hmem,hfin,hold⟩ := h.known _ hlas
  have hraw:=h.identifies old hmem s.file hcur hfin
  exact hold routes (by rw [hraw]; exact hrou)

theorem jobs_of_quiet (hkep : Kept parse s) (hqui : s.Quiet) (i : ℕ) : s.jobs i=none := by
  by_cases hi : i<s.nextJob
  · exact hqui i hi
  · exact hkep.fresh i (by omega)

theorem Later.steady [DecidableEq Raw] [DecidableEq Fingerprint] (h : Later told parse file as s)
    (hsti : a.isStill=true) : s.steady a=true := by
  unfold RouteStore.steady
  split
  next i =>
    split
    next raw hjob =>
      have hraw : raw=file.raw := h.fits i _ hjob
      rw [h.unchanged,hraw]
      exact decide_eq_true rfl
    · rfl
  · cases hsti
  · rfl

theorem Later.moved {i : ℕ} {job : Option (Job Raw Fingerprint)} (h : Later told parse file as s)
    (hsti : a.isStill=true) (hcha : Change s a i job) (hmov : Moves s s' i job) (hkep : Kept parse s')
    (htol : told → Told parse s') : Later told parse file (as++[a]) s' := by
  have hloa : Loaded parse file s → Loaded parse file s' := by
    intro hnow routes hrou
    rw [hmov.routes]
    exact hnow routes hrou
  refine ⟨hkep,htol,hmov.file.trans h.unchanged,?_,?_⟩
  · intro j job' hjob
    rw [hmov.jobs] at hjob
    by_cases hj : j=i
    · subst hj
      rw [Function.update_self] at hjob
      subst hjob
      have hfit:=hcha.fits hsti (h.unchanged ▸ h.fits)
      rwa [h.unchanged] at hfit
    · rw [Function.update_of_ne hj] at hjob
      exact h.fits j job' hjob
  · intro hcos
    -- the job that moves, where it counts
    have hnew : ∀ job', job=some job' → job'.isReload=true ∨ told →
        ∃ j job', s'.jobs j=some job' ∧ (job'.isReload=true ∨ told) := by
      rintro job' rfl hjob'
      exact ⟨i,job',by rw [hmov.jobs,Function.update_self],hjob'⟩
    have hbef : Action.reload ∈ as ∨ told ∧ Action.tick ∈ as ∨ a=.reload ∨ told ∧ a=.tick := by
      rcases hcos with hrel | ⟨ht,htic⟩
      · rcases mem_append.1 hrel with hold | hlast
        · exact Or.inl hold
        · exact Or.inr (Or.inr (Or.inl (mem_singleton.1 hlast).symm))
      · rcases mem_append.1 htic with hold | hlast
        · exact Or.inr (Or.inl ⟨ht,hold⟩)
        · exact Or.inr (Or.inr (Or.inr ⟨ht,(mem_singleton.1 hlast).symm⟩))
    have hcoe : (Action.reload ∈ as ∨ told ∧ Action.tick ∈ as) →
        Loaded parse file s' ∨ ∃ j job', s'.jobs j=some job' ∧ (job'.isReload=true ∨ told) := by
      intro hold
      rcases h.course hold with hnow | ⟨j,old,hjob,hcou⟩
      · exact Or.inl (hloa hnow)
      · by_cases hj : j=i
        · subst hj
          cases hcha with
          | reload => exact absurd rfl (h.kept.fresh.ne hjob)
          | tick => exact absurd rfl (h.kept.fresh.ne hjob)
          | read j hrea => exact Or.inr (hnew _ rfl (Or.inl rfl))
          | stat j raw hstt => exact Or.inr (hnew _ rfl (Or.inl rfl))
          | poll j hpol =>
            obtain rfl := Option.some.inj (hpol.symm.trans hjob)
            exact Or.inr (hnew _ rfl (Or.inr (hcou.resolve_left (by simp [Job.isReload]))))
          | failRead j hrea hsta => cases hsti
          | failStat j raw hstt => cases hsti
          | failPoll j hpol => cases hsti
          | differs j fingerprint hpolled hne => exact Or.inr (hnew _ rfl (Or.inl rfl))
          | equal j fingerprint hpolled heq =>
            -- the poll ends without a reload: the last fingerprint is that of the file
            obtain rfl := Option.some.inj (hpolled.symm.trans hjob)
            have ht : told := hcou.resolve_left (by simp [Job.isReload])
            have hfin : fingerprint=file.fingerprint := h.fits _ _ hpolled
            have hlast : s.lastFingerprint=some s.file.fingerprint := by rw [← heq,hfin,h.unchanged]
            have hnow:=(h.reliable ht).loaded h.kept.current hlast
            rw [h.unchanged] at hnow
            exact Or.inl (hloa hnow)
        · exact Or.inr ⟨j,old,by rw [hmov.jobs,Function.update_of_ne hj]; exact hjob,hcou⟩
    rcases hbef with hrel | hpolled | rfl | ⟨ht,rfl⟩
    · exact hcoe (Or.inl hrel)
    · exact hcoe (Or.inr hpolled)
    · cases hcha with
      | reload => exact Or.inr (hnew _ rfl (Or.inl rfl))
    · cases hcha with
      | tick => exact Or.inr (hnew _ rfl (Or.inr ht))

theorem Later.ended {i : ℕ} (h : Later told parse file as s) (hkep : Kept parse s') (htol : told → Told parse s')
    (hfil : s'.file=s.file) (hjos : s'.jobs=Function.update s.jobs i none) (hloa : Loaded parse file s') :
    Later told parse file (as++[a]) s' := by
  refine ⟨hkep,htol,hfil.trans h.unchanged,?_,fun _ => Or.inl hloa⟩
  intro j job hjob
  rw [hjos] at hjob
  exact h.fits j job (update_none hjob).2

theorem Later.step [DecidableEq Raw] [DecidableEq Fingerprint] (h : Later told parse file as s)
    (hsti : a.isStill=true) (hste : s.step parse a=some s') : Later told parse file (as++[a]) s' := by
  have htur:=turn_of_step h.kept.fresh hste
  have hkep:=h.kept.step htur
  have htol : told → Told parse s' := fun ht => (h.reliable ht).step h.kept (h.steady hsti) htur
  cases htur with
  | replaced version hs => cases hsti
  | idle b hrep hrel htic hfil hhis hrou hraw hfin hsta hjos hnex =>
    refine ⟨hkep,htol,hfil.trans h.unchanged,by rw [hjos]; exact h.fits,?_⟩
    intro hcou
    have hmem : Action.reload ∈ as ∨ told ∧ Action.tick ∈ as := by
      refine hcou.imp (fun hin => ?_) fun ⟨ht,hin⟩ => ⟨ht,?_⟩
      · exact (mem_append.1 hin).resolve_right fun hlas => hrel (mem_singleton.1 hlas).symm
      · exact (mem_append.1 hin).resolve_right fun hlas => htic (mem_singleton.1 hlas).symm
    unfold Loaded
    rw [hrou,hjos]
    exact h.course hmem
  | moved b i job hcha hmov => exact h.moved hsti hcha hmov hkep htol
  | same i raw fingerprint hjob hsam hs =>
    subst hs
    obtain ⟨hraw,-⟩ : raw=file.raw ∧ fingerprint=some file.fingerprint := h.fits i _ hjob
    refine h.ended hkep htol rfl rfl ?_
    exact fun routes hrou => h.kept.applied raw routes hsam.symm (by rw [hraw]; exact hrou)
  | valid i raw fingerprint routes hjob hpar hs =>
    subst hs
    obtain ⟨hraw,-⟩ : raw=file.raw ∧ fingerprint=some file.fingerprint := h.fits i _ hjob
    refine h.ended hkep htol rfl rfl ?_
    intro routes' hrou
    rw [← hraw,hpar] at hrou
    exact hrou
  | invalid i raw fingerprint hjob hpar hsta hs =>
    subst hs
    obtain ⟨hraw,-⟩ : raw=file.raw ∧ fingerprint=some file.fingerprint := h.fits i _ hjob
    refine h.ended hkep htol rfl rfl ?_
    intro routes' hrou
    rw [← hraw,hpar] at hrou
    cases hrou

end

section
variable {Raw Fingerprint Routes : Type} [DecidableEq Raw] [DecidableEq Fingerprint] {parse : Raw → Option Routes}
  {version : Version Raw Fingerprint} {s t : RouteStore Raw Fingerprint Routes} {as bs : List (Action Raw Fingerprint)}

theorem kept_of_run (h : (system parse).Run (.start version) as s) : Kept parse s := by
  refine h.preserves (fun s a s' hs hste => ?_) (kept_start version)
  exact hs.step (turn_of_step hs.fresh hste)

theorem told_of_run (h : (system parse).RunWhere (fun s a => s.steady a=true) (.start version) as s) : Told parse s := by
  have key : Kept parse s ∧ Told parse s := by
    have hstp : ∀ (u : RouteStore Raw Fingerprint Routes) (a : Action Raw Fingerprint) (u' : RouteStore Raw Fingerprint Routes),
        Kept parse u ∧ Told parse u → u.steady a=true → (system parse).step u a=some u' → Kept parse u' ∧ Told parse u' := by
      intro u a u' ⟨hkep,htol⟩ hste hu
      have htur:=turn_of_step hkep.fresh hu
      exact ⟨hkep.step htur,htol.step hkep hste htur⟩
    exact h.preserves hstp ⟨kept_start version,told_start version⟩
  exact key.2

/-- After the last change and the last reload that was under way: a further reload brings the routes of the file, and so
does a further poll where every reload had the fingerprint of what it read. -/
theorem routes_converge (parse : Raw → Option Routes) (version : Version Raw Fingerprint) (as : List (Action Raw Fingerprint))
    (s : RouteStore Raw Fingerprint Routes) (hrun : (system parse).Run (.start version) as s) (hquiet : s.Quiet)
    (bs : List (Action Raw Fingerprint)) (t : RouteStore Raw Fingerprint Routes) (hfurther : (system parse).Run s bs t)
    (hstill : ∀ a ∈ bs, a.isStill=true) (hended : t.Quiet)
    (hdone : Action.reload ∈ bs ∨
      Action.tick ∈ bs ∧ (system parse).RunWhere (fun s a => s.steady a=true) (.start version) as s) :
    t.Serves parse := by
  have hkep:=kept_of_run hrun
  have hnon:=jobs_of_quiet hkep hquiet
  let told : Prop := (system parse).RunWhere (fun s a => s.steady a=true) (.start version) as s
  have hlat : ∀ cs u, (system parse).Run s cs u → (∀ a ∈ cs, a.isStill=true) → Later told parse s.file cs u := by
    intro cs u hcs
    induction hcs with
    | refl =>
      intro _
      refine ⟨hkep,told_of_run,rfl,fun i job hjob => ?_,fun hin => ?_⟩
      · rw [hnon i] at hjob
        cases hjob
      · rcases hin with hin | ⟨-,hin⟩
        · cases hin
        · cases hin
    | @tail t u cs a _ hste ih =>
      intro hall
      have hcs : ∀ b ∈ cs, b.isStill=true := fun b hb => hall b (mem_append_left _ hb)
      exact (ih hcs).step (hall a (mem_append_right _ (mem_singleton_self a))) hste
  have hlas:=hlat bs t hfurther hstill
  have hloa : Loaded parse s.file t := by
    have hcou : Action.reload ∈ bs ∨ told ∧ Action.tick ∈ bs := hdone.imp_right And.symm
    rcases hlas.course hcou with hnow | ⟨i,job,hjob,-⟩
    · exact hnow
    · rw [jobs_of_quiet hlas.kept hended i] at hjob
      cases hjob
  unfold RouteStore.Serves
  rw [hlas.unchanged]
  split
  next routes hpar => exact hloa routes hpar
  next =>
    have hsta : t.started=true := by
      rcases hlas.kept.began with hsta | ⟨-,job,hjob,-⟩
      · exact hsta
      · rw [jobs_of_quiet hlas.kept hended 0] at hjob
        cases hjob
    exact hlas.kept.valid hsta

end

def versionNamed (raw : String) (fingerprint : ℕ) : Version String ℕ := ⟨raw,fingerprint⟩

/-- The watch is unavailable, a poll reads the second version, and the third one comes before its fingerprint is taken. -/
def revokedBetween : List (Action String ℕ) :=
  [.read 0,.stat 0,.finish 0,.watch false,.replace (versionNamed "second" 2),.tick,.stat 1,.finish 1,.read 1,
    .replace (versionNamed "third" 3),.stat 1,.finish 1]

/-- The same without the third version. -/
def replacedOnce : List (Action String ℕ) :=
  [.read 0,.stat 0,.finish 0,.watch false,.replace (versionNamed "second" 2),.tick,.stat 1,.finish 1,.read 1,
    .stat 1,.finish 1]

def poll : List (Action String ℕ) := [.tick,.stat 2,.finish 2]

def startNamed : RouteStore String ℕ String := .start (versionNamed "first" 1)

instance (s : RouteStore String ℕ String) : Decidable s.Quiet := by
  unfold RouteStore.Quiet
  infer_instance

theorem routes_converge_once : ∃ t, (system some).Run startNamed (replacedOnce++poll) t ∧ t.Serves some := by
  have hexe : (((system some).execWhere (fun s a => s.steady a) startNamed replacedOnce).bind fun s =>
      ((system some).exec s poll).map fun t => decide s.Quiet && decide t.Quiet)=some true := by decide
  obtain ⟨s,hs,hres⟩ := bind_eq_some_iff.1 hexe
  obtain ⟨t,ht,hqui⟩ := map_eq_some_iff.1 hres
  rw [Bool.and_eq_true,decide_eq_true_eq,decide_eq_true_eq] at hqui
  have hwhe:=TransitionSystem.runWhere_of_exec hs
  have hpol:=TransitionSystem.run_of_exec ht
  exact ⟨t,hwhe.run.trans hpol,routes_converge some (versionNamed "first" 1) replacedOnce s hwhe.run hqui.1 poll t
    hpol (by decide) hqui.2 (Or.inr ⟨by decide,hwhe⟩)⟩

/-- The third version has the fingerprint that the poll sees last, and the second one is served for good. -/
theorem revoked_routes_stay :
    ¬∀ (parse : String → Option String) (version : Version String ℕ) (as : List (Action String ℕ))
      (s : RouteStore String ℕ String), (system parse).Run (.start version) as s → s.Quiet →
      ∀ (bs : List (Action String ℕ)) (t : RouteStore String ℕ String), (system parse).Run s bs t →
        (∀ a ∈ bs, a.isStill=true) → t.Quiet → (Action.reload ∈ bs ∨ Action.tick ∈ bs) → t.Serves parse := by
  intro hall
  have hexe : (((system some).exec startNamed revokedBetween).bind fun s =>
      ((system some).exec s poll).map fun t => (decide s.Quiet && decide t.Quiet,t.file.raw,t.routes)) =
      some (true,"third",some "second") := by decide
  obtain ⟨s,hs,hret⟩ := bind_eq_some_iff.1 hexe
  obtain ⟨t,ht,hres⟩ := map_eq_some_iff.1 hret
  obtain ⟨hqui,hraw,hrou⟩ : (decide s.Quiet && decide t.Quiet)=true ∧ t.file.raw = "third" ∧
      t.routes=some "second" := by simpa using hres
  rw [Bool.and_eq_true,decide_eq_true_eq,decide_eq_true_eq] at hqui
  have hser:=hall some (versionNamed "first" 1) revokedBetween s (TransitionSystem.run_of_exec hs) hqui.1 poll t
    (TransitionSystem.run_of_exec ht) (by decide) hqui.2 (Or.inr (by decide))
  unfold RouteStore.Serves at hser
  rw [hraw,hrou] at hser
  have hsam : "second" = "third" := Option.some.inj hser
  exact absurd hsam (by decide)

end Qubicl.Gateway.RouteFile
