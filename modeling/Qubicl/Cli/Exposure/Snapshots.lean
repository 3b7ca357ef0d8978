import Mathlib.Logic.Equiv.List
import Mathlib.Tactic.DeriveEncodable
import Qubicl.Cli.Exposure.Runtime
import Qubicl.Core.LegacyJournal

/-!
# Snapshots fail closed and are replaced

What the gateway loads belongs to one configuration, wherever the runs before were cut.
-/

namespace Qubicl.Cli.Exposure
open Foundation Core Durable List Option

variable {z : Formats} {node : Platform}

structure ValidExposure (z : Formats) (node : Platform) where
  config : GatewayExposureConfig
  secret : GatewayExposureTlsSecret
  config_valid : gatewayExposureConfigSchema z config=true
  secret_valid : gatewayExposureTlsSecretSchema secret=true
  tls_valid : ∀ now, ∃ summary, validateConfiguredGatewayTls z node config secret now false=.ok summary

namespace ValidExposure
variable (e : ValidExposure z node)

def document : String := documentText node (gatewayExposureRuntime e.config)

def file (name : String) : Option String :=
  if name=GATEWAY_EXPOSURE_RUNTIME_DOCUMENT then some e.document
  else if name=GATEWAY_EXPOSURE_CLIENT_CA_FILE then e.secret.clientCertificateAuthorityPem
  else if name=GATEWAY_EXPOSURE_PRIVATE_KEY_FILE then some e.secret.privateKeyPem
  else if name=GATEWAY_EXPOSURE_CERTIFICATE_FILE then some e.secret.certificateChainPem
  else none

def access (listenPort : ℕ) : GatewayExternalAccess where
  runtime := gatewayExposureRuntime e.config
  listenPort := listenPort
  certificate := e.secret.certificateChainPem
  privateKey := e.secret.privateKeyPem
  clientCertificateAuthority := e.secret.clientCertificateAuthorityPem

def readable (maximumBytes : ℕ) (text : String) : Bool := boundedText maximumBytes text && nulFree text

/-- The texts are within the bounds in bytes of those who read them, and have no NUL. -/
def Readable : Prop :=
  readable MAX_CERTIFICATE_BYTES e.secret.certificateChainPem=true ∧
    readable MAX_PRIVATE_KEY_BYTES e.secret.privateKeyPem=true ∧
    e.secret.clientCertificateAuthorityPem.all (readable MAX_CLIENT_CA_BYTES)=true ∧
    readable MAX_EXPOSURE_DOCUMENT_BYTES e.document=true

theorem parse_config : parseExposureRuntime z (gatewayExposureRuntime e.config) =
    .ok (gatewayExposureRuntime e.config) := if_pos (gatewayExposureRuntime_valid z e.config_valid)

theorem secret_matches : gatewayExposureTlsSecretMatches z (some e.config) (some e.secret)=true := by
  obtain ⟨summary,hsum⟩ := e.tls_valid 0
  unfold validateConfiguredGatewayTls at hsum
  simp only [bind_ok,assertGatewayExposureTlsSecretMatches,rejectIf_ok] at hsum
  obtain ⟨_,hmat,-⟩ := hsum
  simpa using hmat

end ValidExposure

/-- A run for a valid exposure or for none, cut after some filesystem step or not. -/
structure Attempt (z : Formats) (node : Platform) where
  exposure : Option (ValidExposure z node)
  now : ℕ
  suffix : Entries → String
  written : String → List ℕ
  cut : Option ℕ

section Runs
variable (uid : ℕ) (paths : StatePaths)

def Attempt.host (a : Attempt z node) : Host := ⟨uid,a.suffix,a.written⟩

def Attempt.program (a : Attempt z node) : Durable (Place Entries) String Unit :=
  materializeGatewayExposure z node (a.host uid) paths (a.exposure.map (·.config)) (a.exposure.map (·.secret)) a.now

def system (z : Formats) (node : Platform) : TransitionSystem (Place Entries) (Attempt z node) where
  initial place := place=.absent
  step place a := match a.cut with
    | none => some ((a.program uid paths).final place)
    | some steps => some ((a.program uid paths).after steps place)

/-- Nothing is in the directory but the four files. -/
def TemporaryFree (place : Place Entries) : Prop :=
  ∀ entries, place.content? = some entries → ∀ found ∈ entries, found.1 ∈ runtimeFiles

/-- The run is not cut while there is a temporary file. -/
def Whole (place : Place Entries) (a : Attempt z node) : Prop :=
  ∀ steps, a.cut=some steps → TemporaryFree ((a.program uid paths).after steps place)

/-- A run that is not cut succeeds and leaves the files of its exposure, valid as the exposure is, or no directory. -/
def Replaces (place : Place Entries) (later : Attempt z node) : Prop :=
  (later.program uid paths).result place=.ok () ∧
    match later.exposure with
    | none => (later.program uid paths).final place=.absent
    | some e => ∃ entries, (later.program uid paths).final place=.real uid 0o700 entries ∧
        (∀ name, entries.lookup name=(e.file name).map (.real uid 0o600)) ∧
        ∀ now requireCurrent,
          validateGatewayExposureRuntimeSnapshot z node paths ((later.program uid paths).final place) (some e.config)
              (some e.secret) now requireCurrent =
            validateConfiguredGatewayTls z node e.config e.secret now requireCurrent

end Runs

theorem temporaryName_not_file (host : Host) (name : String) (entries : Entries) :
    temporaryName host name entries ∉ runtimeFiles := by
  intro h
  have hsuf : ".tmp".toList.isSuffixOf (temporaryName host name entries).toList=true := by
    unfold temporaryName
    rw [String.toList_append,isSuffixOf_iff_suffix]
    exact suffix_append _ _
  have hfil : ∀ file ∈ runtimeFiles, ".tmp".toList.isSuffixOf file.toList=false := by decide
  rw [hfil _ h] at hsuf
  cases hsuf

section AtomicWrite
variable {host : Host} {directory name contents : String} {mode : ℕ}

theorem wp_atomicWrite {P : Entries → Prop} {entries : Entries} (h : P entries)
    (htem : ∀ text t, P t → P (mapSet (temporaryName host name entries) (.real host.uid mode text) t))
    (hdel : ∀ t, P t → P (mapDelete (temporaryName host name entries) t))
    (hwri : ∀ t, P t → P (mapSet name (.real host.uid mode contents) t)) :
    wp (atomicWrite host directory name contents mode) ⟨P,fun _ t => P t,fun _ t => P t⟩ entries := by
  unfold atomicWrite
  rw [wp_bind,wp_reads]
  refine ((Keeps.rescued ?_ ?_).bind fun _ => ?_) entries h
  · unfold createTemporary renameTemporary writeFile
    refine Keeps.bind (Keeps.bind (keeps_reads _) fun _ => ?_) fun _ => Keeps.bind ?_ fun _ => ?_
    · exact keeps_write fun s hs => htem _ s hs
    · refine keeps_writes fun s hs t ht => ?_
      rcases mem_append.1 ht with hpar | hwhole
      · obtain ⟨n,-,rfl⟩ := mem_map.1 hpar
        exact htem _ s hs
      · rw [mem_singleton.1 hwhole]
        exact htem _ s hs
    · exact Keeps.bind (keeps_reads _) fun _ => keeps_write fun s hs => hwri _ (hdel s hs)
  · exact keeps_write hdel
  · exact keeps_write hdel

theorem atomicWrite_replaces {entries : Entries} (hfre : entries.lookup (temporaryName host name entries)=none)
    (hnam : name ∈ runtimeFiles) (hfil : entries.lookup name≠some (.foreign true)) :
    wp (atomicWrite host directory name contents mode) ⟨fun _ => True,
      fun _ t => ∀ k, t.lookup k=if k=name then some (.real host.uid mode contents) else entries.lookup k,
      fun _ _ => False⟩ entries := by
  have hne : name≠temporaryName host name entries := by
    intro heq
    rw [heq] at hnam
    exact temporaryName_not_file host name entries (heq ▸ hnam)
  have hmis : ¬ hasEntry (temporaryName host name entries) entries=true := by
    unfold hasEntry
    rw [hfre]
    decide
  unfold atomicWrite createTemporary writeFile renameTemporary
  simp only [wp_bind,wp_reads,wp_rescued,wp_write,wp_writes,rejectIf,if_neg hmis,true_and,implies_true,
    getLastD_concat,lookup_mapSet,if_neg hne,if_neg hfil]
  intro k
  simp only [lookup_mapDelete,lookup_mapSet]
  by_cases hk : k=name
  · subst hk
    simp [hne]
  · by_cases htem : k=temporaryName host name entries
    · subst htem
      simp [hk,hfre]
    · simp [hk,htem]

/- A file of an earlier run that is not one of the four stays, or the write throws. -/
theorem atomicWrite_leaves {entries : Entries} {other : String} (hoth : other ∉ runtimeFiles)
    (h : hasEntry other entries=true) (hnam : name ∈ runtimeFiles) :
    wp (atomicWrite host directory name contents mode) ⟨fun _ => True,fun _ t => hasEntry other t=true,
      fun _ _ => True⟩ entries := by
  by_cases hsam : other=temporaryName host name entries
  · -- the temporary file cannot be created
    rw [hsam] at h
    unfold atomicWrite createTemporary
    simp only [wp_bind,wp_reads,wp_rescued,wp_write,rejectIf,if_pos h,true_and,and_self]
  · have hne : other≠name := fun heq => hoth (heq ▸ hnam)
    refine (wp_atomicWrite h ?_ ?_ ?_).mono (fun _ _ => trivial) (fun _ _ h => h) fun _ _ _ => trivial
    · intro text t ht
      simpa [hasEntry,lookup_mapSet,hsam] using ht
    · intro t ht
      simpa [hasEntry,lookup_mapDelete,hsam] using ht
    · intro t ht
      simpa [hasEntry,lookup_mapSet,hne] using ht

end AtomicWrite

/-- Regular files of the user, and the document is one of `documents`. -/
structure SoundEntries (uid : ℕ) (documents : String → Prop) (entries : Entries) : Prop where
  regular : ∀ found ∈ entries, ∃ text, found.2 = .real uid 0o600 text
  document : ∀ text, entries.lookup GATEWAY_EXPOSURE_RUNTIME_DOCUMENT=some (.real uid 0o600 text) → documents text

def Sound (uid : ℕ) (documents : String → Prop) (place : Place Entries) : Prop :=
  place=.absent ∨ ∃ entries, place=.real uid 0o700 entries ∧ SoundEntries uid documents entries

variable {text : String}

section Keeping
variable {uid : ℕ} {documents : String → Prop} {host : Host} {paths : StatePaths} {entries : Entries}

theorem SoundEntries.mapSet {name : String} (h : SoundEntries uid documents entries)
    (hdoc : name=GATEWAY_EXPOSURE_RUNTIME_DOCUMENT → documents text) :
    SoundEntries uid documents (mapSet name (.real uid 0o600 text) entries) where
  regular found hfou := by
    rcases mem_mapSet hfou with rfl | hmem
    · exact ⟨text,rfl⟩
    · exact h.regular found hmem
  document content hcon := by
    rw [lookup_mapSet] at hcon
    split at hcon
    next heq =>
      cases hcon
      exact hdoc heq.symm
    next => exact h.document content hcon

theorem SoundEntries.mapDelete (h : SoundEntries uid documents entries) (name : String) :
    SoundEntries uid documents (mapDelete name entries) where
  regular found hfou := h.regular found (mem_mapDelete.1 hfou).1
  document content hcon := by
    rw [lookup_mapDelete] at hcon
    split at hcon
    next => cases hcon
    next => exact h.document content hcon

theorem keeps_sound_atomicWrite {directory name contents : String} (hhos : host.uid=uid)
    (hdoc : name=GATEWAY_EXPOSURE_RUNTIME_DOCUMENT → documents contents) :
    Keeps (SoundEntries uid documents) (atomicWrite host directory name contents 0o600) := by
  subst hhos
  intro entries h
  refine wp_atomicWrite h (fun text t ht => ht.mapSet ?_) (fun t ht => ht.mapDelete _) fun t ht => ht.mapSet hdoc
  intro heq
  have hnot:=temporaryName_not_file host name entries
  rw [heq] at hnot
  exact absurd (by decide) hnot

theorem keeps_sound_inside {m : Durable Entries String Unit} (h : Keeps (SoundEntries uid documents) m) (path : String) :
    Keeps (Sound uid documents) (inside path m) := by
  intro place hpla
  rcases hpla with rfl | ⟨entries,rfl,hent⟩
  · exact wp_of_error rfl (by simp) (Or.inl rfl)
  · rw [wp_inside]
    have hrea : ∀ t, SoundEntries uid documents t → Sound uid documents (.real uid 0o700 t) := fun t ht =>
      Or.inr ⟨t,rfl,ht⟩
    exact (h entries hent).mono hrea (fun _ => hrea) fun _ => hrea

theorem keeps_sound_ensure (hhos : host.uid=uid) :
    Keeps (Sound uid documents) (ensurePrivateRuntimeDirectory host paths) := by
  unfold ensurePrivateRuntimeDirectory
  refine Keeps.bind ?_ fun _ => Keeps.bind (keeps_reads _) fun _ => keeps_write ?_
  · intro place hpla
    rcases hpla with rfl | ⟨entries,rfl,hent⟩
    · have hemp : Sound uid documents (.real host.uid 0o700 []) := by
        rw [hhos]
        exact Or.inr ⟨[],rfl,by simp,by simp⟩
      exact wp_of_ok rfl (by simpa using hemp) hemp
    · exact wp_of_ok rfl (by simp) (Or.inr ⟨entries,rfl,hent⟩)
  · intro place hpla
    rcases hpla with rfl | ⟨entries,rfl,hent⟩
    · exact Or.inl rfl
    · exact Or.inr ⟨entries,rfl,hent⟩

theorem keeps_sound_remove : Keeps (Sound uid documents) (removeGatewayExposureRuntime paths) := by
  have hunl : ∀ entries, Keeps (SoundEntries uid documents) (unlinkEntries entries) := by
    intro entries
    unfold unlinkEntries unlinkEntry
    refine Keeps.bind (keeps_reads _) fun _ => keeps_forEach fun x _ => Keeps.bind (keeps_reads _) fun _ => ?_
    exact keeps_write fun t ht => ht.mapDelete _
  have hrem : Keeps (Sound uid documents) (removeDirectory paths) := by
    intro place hpla
    rcases hpla with rfl | ⟨entries,rfl,hent⟩
    · exact wp_of_error rfl (by simp) (Or.inl rfl)
    · cases entries with
      | nil => exact wp_of_ok rfl (by simp [Sound]) (Or.inl rfl)
      | cons x rest => exact wp_of_error rfl (by simp) (Or.inr ⟨_,rfl,hent⟩)
  intro place hpla
  rcases hpla with rfl | ⟨entries,rfl,hent⟩
  · exact wp_of_ok rfl (by simp) (Or.inl rfl)
  · exact ((keeps_sound_inside (hunl entries) _).bind fun _ => hrem) _ (Or.inr ⟨entries,rfl,hent⟩)

theorem keeps_sound_materialize (a : Attempt z node) (hdoc : ∀ e, a.exposure=some e → documents e.document) :
    Keeps (Sound uid documents) (a.program uid paths) := by
  unfold Attempt.program materializeGatewayExposure
  refine Keeps.bind (keeps_ofExcept _) fun _ => ?_
  cases hexp : a.exposure with
  | none => exact keeps_sound_remove
  | some e =>
    refine Keeps.bind (keeps_ofExcept _) fun _ => Keeps.bind (keeps_sound_ensure rfl) fun _ => ?_
    refine keeps_sound_inside ?_ _
    unfold replaceFiles
    refine Keeps.bind (keeps_sound_atomicWrite rfl fun h => absurd h (by decide)) fun _ => ?_
    refine Keeps.bind (keeps_sound_atomicWrite rfl fun h => absurd h (by decide)) fun _ => ?_
    have haut : Keeps (SoundEntries uid documents)
        (replaceAuthority (a.host uid) paths e.secret.clientCertificateAuthorityPem) := by
      unfold replaceAuthority
      split
      next => exact keeps_sound_atomicWrite rfl fun h => absurd h (by decide)
      next => exact Keeps.bind (keeps_reads _) fun _ => keeps_write fun t ht => ht.mapDelete _
    refine Keeps.bind haut fun _ => ?_
    rw [e.parse_config]
    intro entries h
    rw [wp_bind,wp_ofExcept_ok]
    exact keeps_sound_atomicWrite rfl (fun _ => hdoc e hexp) entries h

end Keeping

/-- The names are of the four files, and none is that of a directory. -/
structure Clean (entries : Entries) : Prop where
  names : ∀ name, hasEntry name entries=true → name ∈ runtimeFiles
  files : ∀ name, entries.lookup name≠some (.foreign true)

section Uncut
variable {uid : ℕ} {documents : String → Prop} {host : Host} {paths : StatePaths} {entries : Entries}

theorem hasEntry_of_mem {found : String × Place String} (h : found ∈ entries) : hasEntry found.1 entries=true := by
  unfold hasEntry
  by_contra hnon
  rw [Bool.not_eq_true,isSome_eq_false_iff,isNone_iff_eq_none,lookup_eq_none_iff] at hnon
  simpa using hnon found h

theorem exists_of_hasEntry {name : String} (h : hasEntry name entries=true) : ∃ found ∈ entries, found.1=name := by
  unfold hasEntry at h
  obtain ⟨place,hpla⟩ := isSome_iff_exists.1 h
  exact ⟨(name,place),mem_of_lookup hpla,rfl⟩

theorem clean_of_sound (h : SoundEntries uid documents entries) (hfre : ∀ found ∈ entries, found.1 ∈ runtimeFiles) :
    Clean entries where
  names name hnam := by
    obtain ⟨found,hfou,rfl⟩ := exists_of_hasEntry hnam
    exact hfre found hfou
  files name hnam := by
    obtain ⟨text,htex⟩ := h.regular _ (mem_of_lookup hnam)
    cases htex

theorem Clean.replace {t : Entries} {name : String} {place : Option (Place String)} (h : Clean entries)
    (hnam : name ∈ runtimeFiles) (hpla : place≠some (.foreign true))
    (ht : ∀ k, t.lookup k=if k=name then place else entries.lookup k) : Clean t where
  names k hk := by
    unfold hasEntry at hk
    rw [ht] at hk
    split at hk
    next heq => exact heq ▸ hnam
    next => exact h.names k hk
  files k := by
    rw [ht]
    split
    next => exact hpla
    next => exact h.files k

theorem atomicWrite_clean {directory name contents : String} {mode : ℕ} (h : Clean entries)
    (hnam : name ∈ runtimeFiles) :
    wp (atomicWrite host directory name contents mode) ⟨fun _ => True,
      fun _ t => Clean t ∧ ∀ k, t.lookup k=if k=name then some (.real host.uid mode contents) else entries.lookup k,
      fun _ _ => False⟩ entries := by
  have hfre : entries.lookup (temporaryName host name entries)=none := by
    by_contra hsom
    refine temporaryName_not_file host name entries (h.names _ ?_)
    exact isSome_iff_ne_none.2 hsom
  refine (atomicWrite_replaces hfre hnam (h.files name)).mono (fun _ h => h) ?_ fun _ _ h => h
  intro _ t ht
  exact ⟨h.replace hnam (by simp) ht,ht⟩

theorem replaceAuthority_clean (authority : Option String) (h : Clean entries) :
    wp (replaceAuthority host paths authority) ⟨fun _ => True,
      fun _ t => Clean t ∧ ∀ k, t.lookup k=if k=GATEWAY_EXPOSURE_CLIENT_CA_FILE
        then authority.map (.real host.uid 0o600) else entries.lookup k,
      fun _ _ => False⟩ entries := by
  unfold replaceAuthority
  split
  next authority => exact atomicWrite_clean h (by decide)
  next =>
    unfold durableRemove
    have hloo : ∀ k, (mapDelete GATEWAY_EXPOSURE_CLIENT_CA_FILE entries).lookup k =
        if k=GATEWAY_EXPOSURE_CLIENT_CA_FILE then none else entries.lookup k := fun k => lookup_mapDelete _ _ _
    rw [wp_bind,wp_reads]
    simp only [rejectIf,if_neg (h.files _),wp_write,true_and]
    exact ⟨h.replace (by decide) (by simp) hloo,hloo⟩

theorem replaceFiles_clean (e : ValidExposure z node) (h : Clean entries) :
    wp (replaceFiles z node host paths e.config e.secret) ⟨fun _ => True,
      fun _ t => ∀ name, t.lookup name=(e.file name).map (.real host.uid 0o600),fun _ _ => False⟩ entries := by
  unfold replaceFiles
  rw [wp_bind]
  refine (atomicWrite_clean h (by decide)).mono (fun _ h => h) ?_ fun _ _ h => h
  intro _ t₁ ⟨hcle,ht₁⟩
  rw [wp_bind]
  refine (atomicWrite_clean hcle (by decide)).mono (fun _ h => h) ?_ fun _ _ h => h
  intro _ t₂ ⟨hcl₂,ht₂⟩
  rw [wp_bind]
  refine (replaceAuthority_clean e.secret.clientCertificateAuthorityPem hcl₂).mono (fun _ h => h) ?_ fun _ _ h => h
  intro _ t₃ ⟨hcl₃,ht₃⟩
  rw [e.parse_config,wp_bind,wp_ofExcept_ok]
  refine (atomicWrite_clean hcl₃ (by decide)).mono (fun _ h => h) ?_ fun _ _ h => h
  intro _ t₄ ⟨hcl₄,ht₄⟩ name
  unfold ValidExposure.file
  rw [ht₄]
  split
  next => rfl
  next hdoc =>
  rw [ht₃]
  split
  next => rfl
  next haut =>
  rw [ht₂]
  split
  next => rfl
  next hkey =>
  rw [ht₁]
  split
  next => rfl
  next hcer =>
  by_contra hsom
  have hnam:=h.names name (isSome_iff_ne_none.2 hsom)
  simp [runtimeFiles,hdoc,haut,hkey,hcer] at hnam

section Program
variable {a : Attempt z node} {returns : Unit → Place Entries → Prop} {throws : String → Place Entries → Prop}

theorem wp_program_some {e : ValidExposure z node} (hexp : a.exposure=some e) {place : Place Entries}
    (hpla : place=.absent ∧ entries=[] ∨ place=.real uid 0o700 entries)
    (h : wp (replaceFiles z node (a.host uid) paths e.config e.secret) ⟨fun _ => True,
      fun u t => returns u (.real uid 0o700 t),fun e t => throws e (.real uid 0o700 t)⟩ entries) :
    wp (a.program uid paths) ⟨fun _ => True,returns,throws⟩ place := by
  have hrea : wp (do
      reads (assertRuntimeDirectory (a.host uid) paths)
      write (Place.chmod 0o700)
      inside (exposureDirectory paths) (replaceFiles z node (a.host uid) paths e.config e.secret))
      ⟨fun _ => True,returns,throws⟩ (.real uid 0o700 entries) := by
    have hown : assertRuntimeDirectory (a.host uid) paths (.real uid 0o700 entries)=.ok () := if_pos rfl
    have hchm : (Place.real uid 0o700 entries).chmod 0o700 = .real uid 0o700 entries := rfl
    rw [wp_bind,wp_reads,hown]
    simp only [wp_bind,wp_write,hchm,true_and]
    rw [wp_inside]
    exact h
  simp only [wp_bind] at hrea
  obtain ⟨summary,hsum⟩ := e.tls_valid a.now
  have hmat : assertGatewayExposureTlsSecretMatches z (some e.config) (some e.secret)=.ok () :=
    rejectIf_ok.2 (by simp [e.secret_matches])
  unfold Attempt.program materializeGatewayExposure ensurePrivateRuntimeDirectory
  rw [hexp]
  simp only [map_some]
  rw [hmat,wp_bind,wp_ofExcept_ok,hsum]
  simp only [wp_bind,wp_ofExcept_ok]
  rcases hpla with ⟨rfl,rfl⟩ | rfl
  · exact wp_of_ok rfl (by simp) hrea
  · exact wp_of_ok rfl (by simp) hrea

theorem wp_program_none (hexp : a.exposure=none)
    (h : wp (unlinkEntries entries) ⟨fun _ => True,
      fun _ t => wp (removeDirectory paths) ⟨fun _ => True,returns,throws⟩ (.real uid 0o700 t),
      fun e t => throws e (.real uid 0o700 t)⟩ entries) :
    wp (a.program uid paths) ⟨fun _ => True,returns,throws⟩ (.real uid 0o700 entries) := by
  have hmat : assertGatewayExposureTlsSecretMatches z none none=.ok () :=
    rejectIf_ok.2 (by simp [gatewayExposureTlsSecretMatches])
  unfold Attempt.program materializeGatewayExposure
  rw [hexp]
  simp only [map_none]
  rw [hmat,wp_bind,wp_ofExcept_ok]
  show wp (do
    inside (exposureDirectory paths) (unlinkEntries entries)
    removeDirectory paths) _ _
  rw [wp_bind,wp_inside]
  exact h

end Program

theorem materialize_some {a : Attempt z node} {e : ValidExposure z node} {place : Place Entries}
    (hexp : a.exposure=some e) (h : Sound uid documents place) (hfre : TemporaryFree place) :
    wp (a.program uid paths) ⟨fun _ => True,
      fun _ t => ∃ entries, t=.real uid 0o700 entries ∧
        ∀ name, entries.lookup name=(e.file name).map (.real uid 0o600),fun _ _ => False⟩ place := by
  have hrep : ∀ entries, Clean entries →
      wp (replaceFiles z node (a.host uid) paths e.config e.secret) ⟨fun _ => True,
        fun _ t => ∃ entries, Place.real uid 0o700 t=.real uid 0o700 entries ∧
          ∀ name, entries.lookup name=(e.file name).map (.real uid 0o600),fun _ _ => False⟩ entries := by
    intro entries hcle
    refine (replaceFiles_clean e hcle).mono (fun _ h => h) ?_ fun _ _ h => h
    intro _ t ht
    exact ⟨t,rfl,ht⟩
  rcases h with rfl | ⟨entries,rfl,hent⟩
  · have hcle : Clean [] := ⟨by simp [hasEntry],by simp⟩
    exact wp_program_some hexp (Or.inl ⟨rfl,rfl⟩) (hrep [] hcle)
  · have hcle:=clean_of_sound hent (hfre entries rfl)
    exact wp_program_some hexp (Or.inr rfl) (hrep entries hcle)

theorem materialize_none {a : Attempt z node} {place : Place Entries} (hexe : a.exposure=none)
    (h : Sound uid documents place) (hfre : TemporaryFree place) :
    wp (a.program uid paths) ⟨fun _ => True,fun _ t => t=.absent,fun _ _ => False⟩ place := by
  rcases h with rfl | ⟨entries,rfl,hent⟩
  · have hmat : assertGatewayExposureTlsSecretMatches z none none=.ok () :=
      rejectIf_ok.2 (by simp [gatewayExposureTlsSecretMatches])
    unfold Attempt.program materializeGatewayExposure
    rw [hexe]
    simp only [map_none]
    rw [hmat,wp_bind,wp_ofExcept_ok]
    exact wp_of_ok rfl (by simp) rfl
  · refine wp_program_none hexe ?_
    have hexp : ¬ unexpectedEntries entries≠[] := by
      intro hne
      obtain ⟨name,hnam⟩ := exists_mem_of_ne_nil _ hne
      obtain ⟨hmem,hoth⟩ := mem_filter.1 hnam
      obtain ⟨found,hfou,rfl⟩ := mem_map.1 hmem
      have hfil:=hfre entries rfl found hfou
      simp [hfil] at hoth
    unfold unlinkEntries
    rw [wp_bind,wp_reads]
    simp only [rejectIf,if_neg hexp]
    -- the names that are left are those of the entries that follow
    refine wp_forEach (I := fun rest t => (∀ found ∈ t, found ∈ rest) ∧ ∀ x ∈ rest, x ∈ entries) ?_ ?_ entries
      ⟨fun _ h => h,fun _ h => h⟩
    · rintro x rest t ⟨hlef,hres⟩
      have hreg : ¬ ∃ directory, x.2 = .foreign directory := by
        rintro ⟨directory,hfor⟩
        obtain ⟨text,htex⟩ := hent.regular x (hres x mem_cons_self)
        rw [htex] at hfor
        cases hfor
      unfold unlinkEntry
      simp only [wp_bind,wp_reads,rejectIf,if_neg hreg,wp_write,true_and]
      refine ⟨fun found hfou => ?_,fun y hy => hres y (mem_cons_of_mem _ hy)⟩
      obtain ⟨hmem,hne⟩ := mem_mapDelete.1 hfou
      rcases mem_cons.1 (hlef found hmem) with rfl | hlater
      · exact absurd rfl hne
      · exact hlater
    · rintro t ⟨hlef,_⟩
      have hemp : t=[] := eq_nil_iff_forall_not_mem.2 fun found hfou => by simpa using hlef found hfou
      rw [hemp]
      exact wp_of_ok rfl (by simp) rfl

end Uncut

section Leftover
variable {uid : ℕ} {documents : String → Prop} {host : Host} {paths : StatePaths} {entries : Entries} {other : String}

theorem replaceFiles_leaves (e : ValidExposure z node) (hoth : other ∉ runtimeFiles)
    (h : hasEntry other entries=true) :
    wp (replaceFiles z node host paths e.config e.secret) ⟨fun _ => True,fun _ t => hasEntry other t=true,
      fun _ _ => True⟩ entries := by
  have haut : ∀ t, hasEntry other t=true →
      wp (replaceAuthority host paths e.secret.clientCertificateAuthorityPem) ⟨fun _ => True,
        fun _ t => hasEntry other t=true,fun _ _ => True⟩ t := by
    intro t ht
    unfold replaceAuthority
    split
    next => exact atomicWrite_leaves hoth ht (by decide)
    next =>
      have hne : ¬ other=GATEWAY_EXPOSURE_CLIENT_CA_FILE := by
        rintro rfl
        exact hoth (by decide)
      unfold durableRemove
      rw [wp_bind,wp_reads]
      split
      next =>
        refine (wp_write _ _ _).2 ⟨trivial,?_⟩
        simpa [hasEntry,lookup_mapDelete,hne] using ht
      next => trivial
  unfold replaceFiles
  rw [wp_bind]
  refine (atomicWrite_leaves hoth h (by decide)).mono (fun _ h => h) ?_ fun _ _ h => h
  intro _ t₁ ht₁
  rw [wp_bind]
  refine (atomicWrite_leaves hoth ht₁ (by decide)).mono (fun _ h => h) ?_ fun _ _ h => h
  intro _ t₂ ht₂
  rw [wp_bind]
  refine (haut t₂ ht₂).mono (fun _ h => h) ?_ fun _ _ h => h
  intro _ t₃ ht₃
  rw [e.parse_config,wp_bind,wp_ofExcept_ok]
  exact atomicWrite_leaves hoth ht₃ (by decide)

theorem file_of_not_runtimeFile (e : ValidExposure z node) (hoth : other ∉ runtimeFiles) : e.file other=none := by
  simp only [runtimeFiles,mem_cons,not_mem_nil,or_false,not_or] at hoth
  unfold ValidExposure.file
  rw [if_neg hoth.1,if_neg hoth.2.2.2,if_neg hoth.2.2.1,if_neg hoth.2.1]

/- Removal refuses it, and a replacement does not remove it. -/
theorem not_replaces_of_leftover {later : Attempt z node}
    (hoth : other ∉ runtimeFiles) (hlef : hasEntry other entries=true) :
    ¬ Replaces uid paths (.real uid 0o700 entries) later := by
  intro ⟨hres,hfin⟩
  cases hexp : later.exposure with
  | none =>
    obtain ⟨found,hfou,rfl⟩ := exists_of_hasEntry hlef
    have hune : unexpectedEntries entries≠[] := by
      refine ne_nil_of_mem (a := found.1) (mem_filter.2 ⟨mem_map_of_mem hfou,?_⟩)
      simpa using hoth
    have hthr : wp (later.program uid paths) ⟨fun _ => True,fun _ _ => False,fun _ _ => True⟩
        (.real uid 0o700 entries) := by
      refine wp_program_none hexp ?_
      unfold unlinkEntries
      rw [wp_bind,wp_reads]
      simp only [rejectIf,if_pos hune]
    exact hthr.returned hres
  | some e =>
    rw [hexp] at hfin
    obtain ⟨final,hrea,hloo,-⟩ := hfin
    have hkep : wp (later.program uid paths) ⟨fun _ => True,
        fun _ t => ∀ final, t=.real uid 0o700 final → hasEntry other final=true,fun _ _ => True⟩
        (.real uid 0o700 entries) := by
      refine wp_program_some hexp (Or.inr rfl) ?_
      refine (replaceFiles_leaves e hoth hlef).mono (fun _ h => h) ?_ fun _ _ h => h
      intro _ t ht final heq
      cases heq
      exact ht
    have hent:=hkep.returned hres final hrea
    unfold hasEntry at hent
    rw [hloo,file_of_not_runtimeFile e hoth] at hent
    cases hent

end Leftover

section Reading
variable {uid : ℕ} {paths : StatePaths} {entries : Entries} {e : ValidExposure z node}

theorem readRuntime_ok {place : Place Entries} {name read label : String} {maximumBytes : ℕ}
    (hent : entry name place=.real uid 0o600 text) :
    readRuntime paths place name maximumBytes label=.ok read ↔
      ValidExposure.readable maximumBytes text=true ∧ read=text := by
  have hmod : privateMode 0o600=true := by decide
  unfold readRuntime readBoundedPem
  rw [hent]
  simp only [hmod,ValidExposure.readable,Bool.not_true,Bool.and_false,Bool.false_eq_true,if_false]
  cases boundedText maximumBytes text with
  | false => simp [unreadable]
  | true =>
    cases nulFree text with
    | false => simp [unreadable]
    | true => simp [eq_comm]

theorem entry_of_files (h : ∀ name, entries.lookup name=(e.file name).map (.real uid 0o600)) {name text : String}
    (hfil : e.file name=some text) (mode : ℕ) : entry name (.real uid mode entries)=.real uid 0o600 text := by
  unfold entry
  simp [Place.content?,h,hfil]

theorem validateRuntimeAuthority_ok (h : ∀ name, entries.lookup name=(e.file name).map (.real uid 0o600)) :
    validateRuntimeAuthority paths (.real uid 0o700 entries) e.secret.clientCertificateAuthorityPem=.ok () ↔
      e.secret.clientCertificateAuthorityPem.all (ValidExposure.readable MAX_CLIENT_CA_BYTES)=true := by
  have hnam : e.file GATEWAY_EXPOSURE_CLIENT_CA_FILE=e.secret.clientCertificateAuthorityPem := rfl
  cases haut : e.secret.clientCertificateAuthorityPem with
  | some authority =>
    have hent:=entry_of_files h (hnam.trans haut) 0o700
    simp only [validateRuntimeAuthority,bind_ok,readRuntime_ok hent,rejectIf_ok,all_some]
    constructor
    · rintro ⟨_,⟨hrea,_⟩,_⟩
      exact hrea
    · intro hrea
      exact ⟨authority,⟨hrea,rfl⟩,by simp⟩
  | none =>
    have hent : entry GATEWAY_EXPOSURE_CLIENT_CA_FILE (.real uid 0o700 entries)=.absent := by
      unfold entry
      simp [Place.content?,h,hnam,haut]
    simp [validateRuntimeAuthority,hent]

theorem parsed_document : (node.parse e.document).filter (gatewayExposureRuntimeSchema z) =
    some (gatewayExposureRuntime e.config) := by
  unfold ValidExposure.document documentText
  rw [node.parse_stringify]
  exact filter_some_pos (gatewayExposureRuntime_valid z e.config_valid)

theorem validate_iff (h : ∀ name, entries.lookup name=(e.file name).map (.real uid 0o600)) :
    (∀ now requireCurrent, validateGatewayExposureRuntimeSnapshot z node paths (.real uid 0o700 entries)
        (some e.config) (some e.secret) now requireCurrent =
      validateConfiguredGatewayTls z node e.config e.secret now requireCurrent) ↔ e.Readable := by
  have hcer:=@entry_of_files z node uid entries e h GATEWAY_EXPOSURE_CERTIFICATE_FILE _ rfl 0o700
  have hkey:=@entry_of_files z node uid entries e h GATEWAY_EXPOSURE_PRIVATE_KEY_FILE _ rfl 0o700
  have hdoc:=@entry_of_files z node uid entries e h GATEWAY_EXPOSURE_RUNTIME_DOCUMENT _ rfl 0o700
  constructor
  · intro hsam
    obtain ⟨summary,hsum⟩ := e.tls_valid 0
    have hok:=hsam 0 false
    rw [hsum] at hok
    unfold validateGatewayExposureRuntimeSnapshot at hok
    simp only [bind_ok,readRuntime_ok hcer,readRuntime_ok hkey,readRuntime_ok hdoc,rejectIf_ok] at hok
    obtain ⟨_,-,_,⟨hbou,-⟩,_,⟨hbou',-⟩,_,⟨hbou'',-⟩,_,-,_,haut,-⟩ := hok
    exact ⟨hbou,hbou',(validateRuntimeAuthority_ok h).1 haut,hbou''⟩
  · rintro ⟨hbou,hbou',haut,hbou''⟩ now requireCurrent
    unfold validateGatewayExposureRuntimeSnapshot
    dsimp only
    cases hsum : validateConfiguredGatewayTls z node e.config e.secret now requireCurrent with
    | error message => rfl
    | ok summary =>
      simp only [bind_ok,readRuntime_ok hcer,readRuntime_ok hkey,readRuntime_ok hdoc,rejectIf_ok]
      refine ⟨summary,rfl,_,⟨hbou,rfl⟩,_,⟨hbou',rfl⟩,_,⟨hbou'',rfl⟩,(),by simp,(),
        (validateRuntimeAuthority_ok h).2 haut,gatewayExposureRuntime e.config,?_,(),by simp,rfl⟩
      rw [parsed_document]
      rfl

end Reading

section Loading
variable {uid : ℕ} {documents : String → Prop} {place : Place Entries} {access : GatewayExternalAccess}

theorem readBoundedGatewayFile_ok {maximumBytes : ℕ} {requirePrivateMode : Bool} {code : String} {file : Place String}
    (h : readBoundedGatewayFile maximumBytes requirePrivateMode code file=.ok text) :
    ∃ owner mode, file=.real owner mode text := by
  unfold readBoundedGatewayFile at h
  split at h
  next owner mode content =>
    split at h
    next => cases h
    next =>
      cases h
      exact ⟨owner,mode,rfl⟩
  next => cases h

/- The document that is read is the text of the place. -/
theorem document_of_entry (h : Sound uid documents place) {owner mode : ℕ}
    (hent : entry GATEWAY_EXPOSURE_RUNTIME_DOCUMENT place=.real owner mode text) : documents text := by
  rcases h with rfl | ⟨entries,rfl,hens⟩
  · cases hent
  · unfold entry at hent
    dsimp only [Place.content?] at hent
    cases hloo : entries.lookup GATEWAY_EXPOSURE_RUNTIME_DOCUMENT with
    | none =>
      rw [hloo] at hent
      cases hent
    | some file =>
      rw [hloo,getD_some] at hent
      obtain ⟨content,hcon⟩ := hens.regular _ (mem_of_lookup hloo)
      have hsam : file=.real uid 0o600 content := hcon
      rw [hsam] at hent
      cases hent
      exact hens.document _ (hsam ▸ hloo)

theorem loaded_of_one {accepted : ValidExposure z node → Prop} (hsha : Function.Injective z.sha256Text)
    (h : Sound uid (fun text => ∃ e, accepted e ∧ text=e.document) place)
    {authorityNamed : Bool} {listenPort now : ℕ}
    (hloa : loadGatewayExternalAccess z node place authorityNamed listenPort now=.ok access) :
    ∃ e, accepted e ∧ access=e.access listenPort := by
  unfold loadGatewayExternalAccess at hloa
  simp only [bind_ok,rejectIf_ok] at hloa
  obtain ⟨_,-,text,htex,runtime,hrun,certificate,hcer,privateKey,hkey,authority,haut,_,
    hpre,_,hdig,leaf,-,_,-,heq⟩ := hloa
  obtain ⟨owner,mode,hent⟩ := readBoundedGatewayFile_ok htex
  obtain ⟨e,hacc,rfl⟩ := document_of_entry h hent
  refine ⟨e,hacc,?_⟩
  have hpar : runtime=gatewayExposureRuntime e.config := by
    cases hnul : nulFree e.document with
    | false =>
      simp [hnul,orThrow] at hrun
    | true =>
      rw [hnul,if_pos rfl,parsed_document] at hrun
      exact (Except.ok.inj hrun).symm
  subst hpar
  have hmat:=e.secret_matches
  simp only [gatewayExposureTlsSecretMatches,Bool.and_eq_true,beq_iff_eq] at hmat
  obtain ⟨⟨⟨-,hcertificateSha⟩,hkeySha⟩,hauthoritySha⟩ := hmat
  simp only [not_or,not_not,gatewayExposureRuntime] at hdig
  have hcertificateSame : certificate=e.secret.certificateChainPem := hsha (hdig.1.trans hcertificateSha)
  have hkeySame : privateKey=e.secret.privateKeyPem := hsha (hdig.2.1.trans hkeySha)
  have hauthoritySame : authority=e.secret.clientCertificateAuthorityPem :=
    map_injective hsha (hdig.2.2.trans hauthoritySha)
  rw [← Except.ok.inj heq,hcertificateSame,hkeySame,hauthoritySame]
  rfl

end Loading

section History
variable {uid : ℕ} {paths : StatePaths} {attempts : List (Attempt z node)} {place t : Place Entries}

theorem step_visits {a : Attempt z node} (h : (system uid paths z node).step place a=some t) :
    (a.program uid paths).Visits place t := by
  unfold system at h
  dsimp only at h
  split at h
  next =>
    cases h
    exact (final_mem place).imp id id
  next steps hcut =>
    cases h
    exact after_visits steps place

theorem SoundEntries.mono {documents documents' : String → Prop} {entries : Entries}
    (h : SoundEntries uid documents entries) (himp : ∀ text, documents text → documents' text) :
    SoundEntries uid documents' entries := ⟨h.regular,fun text htex => himp text (h.document text htex)⟩

theorem Sound.mono {documents documents' : String → Prop} (h : Sound uid documents place)
    (himp : ∀ text, documents text → documents' text) : Sound uid documents' place :=
  h.imp id fun ⟨entries,hpla,hent⟩ => ⟨entries,hpla,hent.mono himp⟩

def OneOf (attempts : List (Attempt z node)) (e : ValidExposure z node) : Prop :=
  ∃ a ∈ attempts, a.exposure=some e

theorem sound_of_run (h : (system uid paths z node).Run .absent attempts place) :
    Sound uid (fun text => ∃ e, OneOf attempts e ∧ text=e.document) place := by
  induction h with
  | refl => exact Or.inl rfl
  | @tail before after as a hrun hste ih =>
    have hbef : Sound uid (fun text => ∃ e, OneOf (as++[a]) e ∧ text=e.document) before := by
      refine ih.mono fun text ⟨e,⟨b,hb,he⟩,htex⟩ => ⟨e,⟨b,?_,he⟩,htex⟩
      exact mem_append_left _ hb
    refine (keeps_sound_materialize a fun e he => ?_).visits hbef (step_visits hste)
    exact ⟨e,⟨a,mem_append_right _ mem_cons_self,he⟩,rfl⟩

theorem file_runtimeFiles (e : ValidExposure z node) {name : String} (h : e.file name≠none) : name ∈ runtimeFiles := by
  by_contra hnot
  exact h (file_of_not_runtimeFile e hnot)

theorem temporaryFree_of_files {e : ValidExposure z node} {entries : Entries}
    (h : ∀ name, entries.lookup name=(e.file name).map (.real uid 0o600)) :
    TemporaryFree (.real uid 0o700 entries) := by
  intro entries' hcon found hfou
  cases hcon
  have hent:=hasEntry_of_mem hfou
  unfold hasEntry at hent
  rw [h,isSome_map] at hent
  exact file_runtimeFiles e (isSome_iff_ne_none.1 hent)

theorem temporaryFree_of_whole {documents : String → Prop} {a : Attempt z node} (h : Sound uid documents place)
    (hfre : TemporaryFree place) (hwho : Whole uid paths place a)
    (hste : (system uid paths z node).step place a=some t) : TemporaryFree t := by
  unfold system at hste
  dsimp only at hste
  split at hste
  next =>
    cases hste
    cases hexp : a.exposure with
    | none =>
      have hwp : wp (a.program uid paths) _ place := materialize_none hexp h hfre
      obtain ⟨_,-,hfin⟩ := hwp.returns fun _ _ h => h
      rw [hfin]
      intro entries hcon
      cases hcon
    | some e =>
      have hwp : wp (a.program uid paths) _ place := materialize_some hexp h hfre
      obtain ⟨_,-,entries,hfin,hfil⟩ := hwp.returns fun _ _ h => h
      rw [hfin]
      exact temporaryFree_of_files hfil
  next steps hcut =>
    cases hste
    exact hwho steps hcut

theorem temporaryFree_of_runWhere (h : (system uid paths z node).RunWhere (Whole uid paths) .absent attempts place) :
    TemporaryFree place := by
  have hsta : Sound uid (fun _ => True) (Place.absent : Place Entries) ∧ TemporaryFree (Place.absent : Place Entries) := by
    refine ⟨Or.inl rfl,fun entries hcon => ?_⟩
    cases hcon
  refine (h.preserves (P := fun s => Sound uid (fun _ => True) s ∧ TemporaryFree s) ?_ hsta).2
  intro s a t ⟨hsou,hfre⟩ hwho hste
  exact ⟨(keeps_sound_materialize a fun _ _ => trivial).visits hsou (step_visits hste),
    temporaryFree_of_whole hsou hfre hwho hste⟩

theorem replaces_iff {documents : String → Prop} (h : Sound uid documents place) (later : Attempt z node) :
    Replaces uid paths place later ↔ TemporaryFree place ∧ ∀ e, later.exposure=some e → e.Readable := by
  constructor
  · intro hrep
    have hfre : TemporaryFree place := by
      intro entries hcon found hfou
      by_contra hoth
      rcases h with rfl | ⟨entries',rfl,-⟩
      · cases hcon
      · cases hcon
        exact not_replaces_of_leftover hoth (hasEntry_of_mem hfou) hrep
    refine ⟨hfre,fun e hexp => ?_⟩
    obtain ⟨-,hfin⟩ := hrep
    rw [hexp] at hfin
    obtain ⟨entries,hrel,hfil,hval⟩ := hfin
    rw [hrel] at hval
    exact (validate_iff hfil).1 hval
  · intro ⟨hfre,hrea⟩
    unfold Replaces
    cases hexp : later.exposure with
    | none =>
      have hwp : wp (later.program uid paths) _ place := materialize_none hexp h hfre
      obtain ⟨_,hres,hfin⟩ := hwp.returns fun _ _ h => h
      exact ⟨hres,hfin⟩
    | some e =>
      have hwp : wp (later.program uid paths) _ place := materialize_some hexp h hfre
      obtain ⟨_,hres,entries,hfin,hfil⟩ := hwp.returns fun _ _ h => h
      refine ⟨hres,entries,hfin,hfil,?_⟩
      rw [hfin]
      exact (validate_iff hfil).2 (hrea e hexp)

end History

/-- What is loaded after any runs belongs to one configuration. A later run replaces what they left, or removes it,
if and only if no temporary file is there and its own files can be read back; none is there unless a run was cut
while it had one. -/
theorem snapshots_fail_closed (hsha : Function.Injective z.sha256Text) (uid : ℕ) (paths : StatePaths)
    {attempts : List (Attempt z node)} {place : Place Entries}
    (hrun : (system uid paths z node).Run .absent attempts place) :
    (∀ authorityNamed listenPort now access,
      loadGatewayExternalAccess z node place authorityNamed listenPort now=.ok access →
        ∃ a ∈ attempts, ∃ e, a.exposure=some e ∧ access=e.access listenPort) ∧
    (∀ later : Attempt z node, Replaces uid paths place later ↔
      TemporaryFree place ∧ ∀ e, later.exposure=some e → e.Readable) ∧
    ((system uid paths z node).RunWhere (Whole uid paths) .absent attempts place → TemporaryFree place) := by
  have hsou:=sound_of_run hrun
  refine ⟨fun authorityNamed listenPort now access hloa => ?_,replaces_iff hsou,temporaryFree_of_runWhere⟩
  obtain ⟨e,⟨a,ha,hexp⟩,hacc⟩ := loaded_of_one hsha hsou hloa
  exact ⟨a,ha,e,hexp,hacc⟩

def exampleHex : String := "0123456789abcdef0123456789abcdef0123456789abcdef0123456789abcdef"

def exampleSha (text : String) : String :=
  if text = "certificate" then "sha256:" ++ exampleHex
  else if text = "private key" then "sha256:" ++ exampleDigest
  else "other:" ++ text

theorem exampleSha_injective : Function.Injective exampleSha := by
  have hoth : ∀ digest text : String, "sha256:" ++ digest ≠ "other:" ++ text := by
    intro digest text heq
    have hhea:=congrArg (fun joined : String => joined.toList.head?) heq
    simp at hhea
  have hdig : "sha256:" ++ exampleHex ≠ "sha256:" ++ exampleDigest := by decide
  intro a b h
  unfold exampleSha at h
  split at h
  next ha =>
    split at h
    next hb => exact ha.trans hb.symm
    next =>
      split at h
      next => exact absurd h hdig
      next => exact absurd h (hoth _ _)
  next =>
    split at h
    next ha =>
      split at h
      next => exact absurd h.symm hdig
      next =>
        split at h
        next hb => exact ha.trans hb.symm
        next => exact absurd h (hoth _ _)
    next =>
      split at h
      next => exact absurd h.symm (hoth _ _)
      next =>
        split at h
        next => exact absurd h.symm (hoth _ _)
        next =>
          rw [← String.toList_inj] at h ⊢
          simpa using h

def exposureFormats : Formats :=
  { exampleFormats with
    httpsUrl := fun value => value == "https://127.0.0.1:8443"
    sha256Text := exampleSha }

def exampleExposure : GatewayExposureConfig where
  protocol := "direct-tls-v1"
  bindAddress := "127.0.0.1"
  port := 8443
  hostname := "127.0.0.1"
  allowedNetworks := ["127.0.0.1/32"]
  trustedOrigins := ["https://127.0.0.1:8443"]
  previewDomain := none
  tls :=
    { id := exampleHex
      certificateSha256 := "sha256:" ++ exampleHex
      privateKeySha256 := "sha256:" ++ exampleDigest
      certificateFingerprint256 := "sha256:" ++ exampleHex
      certificateNotBefore := "1970-01-01T00:00:00.000Z"
      certificateNotAfter := "1970-01-01T00:00:00.001Z"
      clientCertificateAuthoritySha256 := none }

def exampleTlsSecret : GatewayExposureTlsSecret where
  id := exampleHex
  certificateChainPem := "certificate"
  privateKeyPem := "private key"
  clientCertificateAuthorityPem := none

def exampleCertificate : X509Certificate where
  validFrom := "Jan  1 00:00:00 1970 GMT"
  validTo := "Jan  1 00:00:01 1970 GMT"
  fingerprint256 := exampleHex
  subject := "CN=127.0.0.1"
  issuer := "CN=127.0.0.1"
  subjectAltName := some "IP Address:127.0.0.1"
  checkHost _ := false
  checkIP address := address == "127.0.0.1"

section Example

local instance encodableChar : Encodable Char := Encodable.ofLeftInverse Char.toNat Char.ofNat Char.ofNat_toNat
local instance encodableString : Encodable String := Encodable.ofLeftInverse String.toList String.ofList fun _ => String.ofList_toList

deriving instance Encodable for GatewayExposureRuntime

def exampleJsonRest : String :=
  "\n  \"version\": 1,\n  \"protocol\": \"direct-tls-v1\",\n  \"hostname\": \"127.0.0.1\",\n  \"port\": 8443,\n" ++
    "  \"allowedNetworks\": [\n    \"127.0.0.1/32\"\n  ],\n  \"trustedOrigins\": [\n    \"https://127.0.0.1:8443\"\n  ],\n" ++
    "  \"certificateSha256\": \"sha256:" ++ exampleHex ++ "\",\n  \"privateKeySha256\": \"sha256:" ++ exampleDigest ++
    "\",\n  \"certificateFingerprint256\": \"sha256:" ++ exampleHex ++
    "\",\n  \"certificateNotBefore\": \"1970-01-01T00:00:00.000Z\",\n" ++
    "  \"certificateNotAfter\": \"1970-01-01T00:00:00.001Z\"\n\x7d"

def exampleJson : String := "\x7b" ++ exampleJsonRest

theorem head_brace (rest : String) : ("\x7b" ++ rest).toList.head? = "\x7b".toList.head? := by
  rw [String.toList_append]
  rfl

def exampleStringify (runtime : GatewayExposureRuntime) : String :=
  if runtime=gatewayExposureRuntime exampleExposure then exampleJson
  else String.ofList (List.replicate (Encodable.encode runtime) 'x')

def examplePlatform : Platform where
  x509 pem := if pem = "certificate" then .ok exampleCertificate else .error "PEM routines::no start line"
  createSecureContext _ _ _ := .ok ()
  publicKeysMatch certificate key := .ok (certificate == "certificate" && key == "private key")
  dateParse text :=
    if text = "Jan  1 00:00:00 1970 GMT" then some 0 else if text = "Jan  1 00:00:01 1970 GMT" then some 1 else none
  toISOString n := "1970-01-01T00:00:00.00" ++ toString n ++ "Z"
  urlHostname _ := none
  stringify := exampleStringify
  stringifyIndented := exampleStringify
  parse text :=
    if text=exampleJson ++ "\n" then some (gatewayExposureRuntime exampleExposure)
    else Encodable.decode (text.toList.length - 1)
  parse_stringify runtime := by
    unfold exampleStringify
    split
    next heq => rw [if_pos rfl,heq]
    next =>
      rw [if_neg,String.toList_append,String.toList_ofList,length_append,length_replicate]
      · exact Encodable.encodek runtime
      · intro heq
        have hheads : (String.ofList (List.replicate (Encodable.encode runtime) 'x') ++ "\n").toList.head? =
            "\x7b".toList.head? := by
          rw [heq,exampleJson,String.append_assoc]
          exact head_brace _
        rw [String.toList_append,String.toList_ofList] at hheads
        cases hcode : Encodable.encode runtime with
        | zero => simp [hcode] at hheads
        | succ n => simp [hcode,replicate_succ] at hheads

end Example

theorem validateConfiguredGatewayTls_now (exposure : GatewayExposureConfig) (secret : GatewayExposureTlsSecret)
    (now later : ℕ) : validateConfiguredGatewayTls z node exposure secret now false =
      validateConfiguredGatewayTls z node exposure secret later false := by
  unfold validateConfiguredGatewayTls assertCurrent
  rfl

def exampleValid : ValidExposure exposureFormats examplePlatform where
  config := exampleExposure
  secret := exampleTlsSecret
  config_valid := by decide
  secret_valid := by decide
  tls_valid now := by
    have hsummary : (validateConfiguredGatewayTls exposureFormats examplePlatform exampleExposure exampleTlsSecret 0
        false).toOption.isSome=true := by
      decide +kernel
    rw [validateConfiguredGatewayTls_now exampleExposure exampleTlsSecret now 0]
    cases hresult : validateConfiguredGatewayTls exposureFormats examplePlatform exampleExposure exampleTlsSecret 0 false with
    | error message =>
      rw [hresult] at hsummary
      cases hsummary
    | ok summary => exact ⟨summary,rfl⟩

def exampleAttempt (exposure : Option (ValidExposure exposureFormats examplePlatform)) (cut : Option ℕ) :
    Attempt exposureFormats examplePlatform where
  exposure := exposure
  now := 0
  suffix _ := "4242.0a1b2c3d4e5f"
  written _ := []
  cut := cut

/-- A run that is done, and the run that removes what it left. -/
theorem snapshots_fail_closed_one :
    Function.Injective exposureFormats.sha256Text ∧
      (Replaces 1000 ⟨"/root"⟩ (((exampleAttempt (some exampleValid) none).program 1000 ⟨"/root"⟩).final .absent)
          (exampleAttempt none none) ↔
        TemporaryFree (((exampleAttempt (some exampleValid) none).program 1000 ⟨"/root"⟩).final .absent) ∧
          ∀ e, (exampleAttempt none none).exposure=some e → e.Readable) :=
  ⟨exampleSha_injective,
    (snapshots_fail_closed exampleSha_injective 1000 ⟨"/root"⟩
      ((TransitionSystem.Run.refl _).tail (a := exampleAttempt (some exampleValid) none) rfl)).2.1 (exampleAttempt none none)⟩

/-- Cut after the first temporary file was created, the exposure can no longer be removed. -/
theorem temporary_file_blocks_removal :
    ((exampleAttempt none none).program 1000 ⟨"/root"⟩).result
        (((exampleAttempt (some exampleValid) none).program 1000 ⟨"/root"⟩).after 3 .absent) =
      .error ("Gateway exposure runtime directory contains unexpected entries: " ++
        "certificate.pem.4242.0a1b2c3d4e5f.tmp.") ∧
    ¬ Replaces 1000 ⟨"/root"⟩ (((exampleAttempt (some exampleValid) none).program 1000 ⟨"/root"⟩).after 3 .absent)
      (exampleAttempt none none) := by
  have hres : ((exampleAttempt none none).program 1000 ⟨"/root"⟩).result
        (((exampleAttempt (some exampleValid) none).program 1000 ⟨"/root"⟩).after 3 .absent) =
      .error ("Gateway exposure runtime directory contains unexpected entries: " ++
        "certificate.pem.4242.0a1b2c3d4e5f.tmp.") := by
    decide +kernel
  refine ⟨hres,fun hrep => ?_⟩
  have hok:=hrep.1
  rw [hres] at hok
  cases hok

end Qubicl.Cli.Exposure
