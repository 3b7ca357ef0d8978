import Qubicl.Foundation.Number
import Qubicl.Foundation.Schema

/-!
# Presets and resources (packages/core/src/presets.ts:3-35, 79-196, 242-309, 520-549)

The capabilities of the curated presets, the names of the computer tools, and
the two resource values: a CPU count is a finite number, here a rational, and an
amount of memory is a text with a unit that `normalizeMemory` brings into its
normal form.
-/

namespace Qubicl.Core
open Foundation List Option

inductive Preset
  | fileSystem | browser | computer | workstation
  deriving DecidableEq, Repr

inductive ConfigPreset
  | curated (preset : Preset)
  | custom
  deriving DecidableEq, Repr

inductive Capability
  | shell | process | files | desktop | viewer | browser | desktopApps | development | office
  deriving DecidableEq, Repr

def capabilityIds : List Capability :=
  [.shell,.process,.files,.desktop,.viewer,.browser,.desktopApps,.development,.office]

def capabilityContractVersion : ℕ := 1
def controlProtocolVersion : ℕ := 12

def baseCapabilities : List Capability := [.shell,.process,.files]
def displayCapabilities : List Capability := baseCapabilities++[.desktop,.viewer,.browser]

/- `PRESET_DEFINITIONS[compatibility].capabilities` -/
def capabilitiesForCompatibility : Preset → List Capability
  | .fileSystem => baseCapabilities
  | .browser => displayCapabilities
  | .computer => displayCapabilities++[.desktopApps]
  | .workstation => displayCapabilities++[.desktopApps,.development,.office]

/- `CapabilityListSchema` -/
def sortedUniqueCapabilities (value : List Capability) : Bool :=
  value == capabilityIds.filter fun capability => value.contains capability

theorem capabilitiesForCompatibility_sorted (compatibility : Preset) :
    sortedUniqueCapabilities (capabilitiesForCompatibility compatibility)=true := by
  cases compatibility <;> decide

inductive ComputerToolName
  | get_computer_status | explain_capability | acquire_lease | renew_lease | release_lease
  | exec_command | list_managed_processes | process_output | save_process_output
  | terminal_open | terminal_list | terminal_read | terminal_write | terminal_resize
  | terminal_signal | terminal_close | write_stdin | stop_process | list_ports | publish_port
  | list_previews | unpublish_port | share_preview | revoke_preview_share | broker_request
  | skills_list | skill_view | skill_manage | web_search | web_extract | list_files
  | get_file_info | read_file | write_file | edit_file | copy_path | move_path | delete_path
  | take_screenshot | control_computer | list_desktop_windows | desktop_snapshot
  | desktop_element_action | desktop_window_action | browser_navigate | browser_snapshot
  | browser_read | browser_screenshot | browser_click | browser_type | browser_select
  | browser_press | browser_scroll | browser_history | browser_wait | browser_tabs
  | browser_use_tab | browser_new_tab | browser_close_tab | browser_reset | browser_upload
  | browser_downloads | browser_cancel_download | browser_dialogs | browser_respond_dialog
  | browser_permissions | browser_diagnostics | browser_set_viewport | browser_click_at
  | browser_double_click_at | browser_hover_at | browser_drag | browser_scroll_at
  | browser_type_focused | browser_inspect_at | browser_computer | read_clipboard
  | write_clipboard | open_desktop_application | list_desktop_applications
  | close_desktop_application
  deriving DecidableEq, Repr

/- `Math.round(value * 4) !== value * 4` -/
def validateCpu (value : ℚ) : Bool := 1 / 4≤value && (value*4).den == 1

/- The groups of `/^(\d+(?:\.\d+)?)([kmg])$/i`: digits, digits after the point, unit. -/
def memoryMatch (cs : List Char) : Option (List Char × List Char × Char) :=
  if cs.takeWhile Char.isDigit=[] then none
  else match cs.dropWhile Char.isDigit with
    | [unit] => some (cs.takeWhile Char.isDigit,[],unit)
    | '.' :: ds =>
      if ds.takeWhile Char.isDigit=[] then none
      else match ds.dropWhile Char.isDigit with
        | [unit] => some (cs.takeWhile Char.isDigit,ds.takeWhile Char.isDigit,unit)
        | _ => none
    | _ => none

def memoryFactor (unit : Char) : Option ℕ :=
  if unit = 'k' ∨ unit = 'K' then some 1024
  else if unit = 'm' ∨ unit = 'M' then some (1024 ^ 2)
  else if unit = 'g' ∨ unit = 'G' then some (1024 ^ 3)
  else none

/- `none`: the value does not look like 512m or 4g. -/
def memoryBytes (value : String) : Option ℚ := do
  let (whole,fraction,unit) ← memoryMatch (Number.trim value.toList)
  let factor ← memoryFactor unit
  some (Number.ofDecimal whole fraction*factor)

def maxSafeInteger : ℕ := 9007199254740991

/- `Number.isSafeInteger`, for numbers that are not negative -/
def isSafeInteger (q : ℚ) : Bool := q.den == 1 && decide (q.num.toNat ≤ maxSafeInteger)

def memoryText (amount : ℚ) (unit : Char) : String := String.ofList (Number.toText amount++[unit])

/- The three returns of `normalizeMemory`. -/
def bytesText (bytesValue : ℕ) : String :=
  if bytesValue % 1024 ^ 3=0 then memoryText ((bytesValue : ℚ) / 1024 ^ 3) 'g'
  else if bytesValue % 1024 ^ 2=0 then memoryText ((bytesValue : ℚ) / 1024 ^ 2) 'm'
  else memoryText ((bytesValue : ℚ) / 1024) 'k'

def normalizeMemory (value : String) : Option String := do
  let bytesValue ← memoryBytes value
  if !isSafeInteger bytesValue || decide (bytesValue<256*1024 ^ 2) then none
  else some (bytesText bytesValue.num.toNat)

theorem takeWhile_digits {ds : List Char} (rest : List Char) (hds : ∀ c ∈ ds, c.isDigit=true)
    (hres : ∀ c ∈ rest.head?, c.isDigit=false) :
    (ds++rest).takeWhile Char.isDigit=ds ∧ (ds++rest).dropWhile Char.isDigit=rest := by
  induction ds with
  | nil =>
    cases rest with
    | nil => simp
    | cons c rest =>
      have hc : c.isDigit=false := hres c rfl
      simp [hc]
  | cons d ds ih =>
    have hd:=hds d mem_cons_self
    have := ih fun c hc => hds c (mem_cons_of_mem _ hc)
    simp [hd,this.1,this.2]

theorem isDigit_point : Char.isDigit '.' = false := by decide

variable {unit : Char}

theorem memoryMatch_toText (q : ℚ) (huni : unit.isDigit=false) :
    memoryMatch (Number.toText q++[unit]) =
      some (Number.wholeText q,Number.fractionText q,unit) := by
  have hwho:=fun c (hc : c ∈ Number.wholeText q) => Number.isDigit_wholeText hc
  have hfra:=fun c (hc : c ∈ Number.fractionText q) => Number.isDigit_fractionText hc
  by_cases hf : Number.fractionText q=[]
  · have hspl:=takeWhile_digits [unit] hwho (by simpa using huni)
    simp [memoryMatch,Number.toText,hf,hspl.1,hspl.2,Number.wholeText_ne_nil]
  · have hspl:=takeWhile_digits ('.' :: (Number.fractionText q++[unit])) hwho
      (by simp [isDigit_point])
    have hspl':=takeWhile_digits [unit] hfra (by simpa using huni)
    have hne : Number.fractionText q++[unit]≠[] := by simp
    rw [memoryMatch,Number.toText,if_neg hf,append_assoc,cons_append,hspl.1,
      hspl.2,if_neg (Number.wholeText_ne_nil q)]
    cases hcs : Number.fractionText q++[unit] with
    | nil => exact absurd hcs hne
    | cons c cs =>
      rw [hcs] at hspl'
      simp [hspl'.1,hspl'.2,hf]

theorem memoryText_notSpace {q : ℚ} (huni : Number.isSpace unit=false) :
    ∀ c ∈ Number.toText q++[unit], Number.isSpace c=false := by
  have hdig : ∀ c : Char, c.isDigit=true → Number.isSpace c=false := by
    intro c hc
    simp only [Char.isDigit,Bool.and_eq_true,decide_eq_true_eq,UInt32.le_iff_toNat_le] at hc
    simp only [Number.isSpace,mem_cons,not_mem_nil,or_false,Bool.or_eq_false_iff,
      decide_eq_false_iff_not,not_or,Bool.and_eq_false_iff]
    have h57 : '9'.val.toNat=57 := rfl
    refine ⟨?_,?_⟩
    · refine ⟨?_,?_,?_,?_,?_,?_,?_,?_,?_,?_,?_,?_,?_,?_⟩ <;>
        (rintro rfl; revert hc; decide)
    · left
      rw [Char.le_def,UInt32.le_iff_toNat_le]
      have h8192 : '\u2000'.val.toNat=8192 := rfl
      omega
  intro c hc
  simp only [Number.toText,append_assoc,mem_append,mem_singleton] at hc
  rcases hc with hc | hc | rfl
  · exact hdig c (Number.isDigit_wholeText hc)
  · split at hc
    · simp at hc
    · rcases mem_cons.1 hc with rfl | hc
      · decide
      · exact hdig c (Number.isDigit_fractionText hc)
  · exact huni

theorem memoryBytes_memoryText {n s k : ℕ} {q : ℚ} (hq : q=n*2 ^ (-s : ℤ)) (hpos : 0<n) (hn : n<2 ^ 53) (hs : s≤1074)
    (huni : unit.isDigit=false) (hspa : Number.isSpace unit=false) (hfac : memoryFactor unit=some k) :
    memoryBytes (memoryText q unit)=some (q*k) := by
  have htri : Number.trim (Number.toText q++[unit])=Number.toText q++[unit] :=
    Number.trim_eq_self (memoryText_notSpace hspa)
  have hrea : Number.ofDecimal (Number.wholeText q) (Number.fractionText q)=q := by
    rw [hq]
    exact Number.ofDecimal_toText hpos hn hs
  simp only [memoryBytes,memoryText,String.toList_ofList,htri,
    memoryMatch_toText _ huni,bind_eq_bind,bind_some,hfac,hrea]

theorem memoryBytes_bytesText {n : ℕ} (hn : n ≤ maxSafeInteger) (hpos : 0<n) :
    memoryBytes (bytesText n)=some (n : ℚ) := by
  unfold maxSafeInteger at hn
  unfold bytesText
  split
  · rename_i h
    obtain ⟨m,rfl⟩ := Nat.dvd_of_mod_eq_zero h
    rw [memoryBytes_memoryText (n := m) (s := 0) (k := 1024 ^ 3) (by push_cast; field_simp; norm_num; ring)
      (by omega) (by omega) (by omega) (by decide) (by decide) (by decide)]
    congr 1
    push_cast
    ring
  · split
    · rename_i h
      obtain ⟨m,rfl⟩ := Nat.dvd_of_mod_eq_zero h
      rw [memoryBytes_memoryText (n := m) (s := 0) (k := 1024 ^ 2)
        (by push_cast; field_simp; norm_num; ring)
        (by omega) (by omega) (by omega) (by decide) (by decide) (by decide)]
      congr 1
      push_cast
      ring
    · rw [memoryBytes_memoryText (n := n) (s := 10) (k := 1024)
        (by rw [zpow_neg,zpow_natCast]; norm_num; ring)
        (by omega) (by omega) (by omega) (by decide) (by decide) (by decide)]
      congr 1
      push_cast
      field_simp

theorem normalizeMemory_eq_some {value text : String} :
    normalizeMemory value=some text ↔ ∃ n : ℕ, memoryBytes value=some (n : ℚ) ∧
      n ≤ maxSafeInteger ∧ 256*1024 ^ 2≤n ∧ text=bytesText n := by
  unfold normalizeMemory
  simp only [bind_eq_bind,bind_eq_some_iff,ite_none_left_eq_some,
    Option.some.injEq,Bool.or_eq_true,Bool.not_eq_true',decide_eq_true_eq,not_or,not_lt,
    Bool.not_eq_false,isSafeInteger,Bool.and_eq_true,beq_iff_eq]
  constructor
  · rintro ⟨q,hq,⟨⟨hden,hle⟩,hmin⟩,htex⟩
    have hnum : 0≤q.num := Rat.num_nonneg.2 (le_trans (by norm_num) hmin)
    have hint : q=(q.num.toNat : ℚ) := by
      rw [← Int.cast_natCast (R := ℚ),Int.toNat_of_nonneg hnum]
      exact (Rat.coe_int_num_of_den_eq_one hden).symm
    refine ⟨q.num.toNat,by rw [hq,← hint],hle,?_,htex.symm⟩
    rw [hint] at hmin
    exact_mod_cast hmin
  · rintro ⟨n,hn,hle,hmin,rfl⟩
    refine ⟨n,hn,⟨⟨Rat.den_natCast n,by simpa using hle⟩,by exact_mod_cast hmin⟩,?_⟩
    rw [Rat.num_natCast,Int.toNat_natCast]

theorem normalizeMemory_stable {value text : String} (h : normalizeMemory value=some text) :
    normalizeMemory text=some text := by
  obtain ⟨n,-,hn,hmin,rfl⟩ := normalizeMemory_eq_some.1 h
  exact normalizeMemory_eq_some.2 ⟨n,memoryBytes_bytesText hn (by omega),hn,hmin,rfl⟩

example : normalizeMemory "4096m" = some "4g" := by decide +kernel

example : normalizeMemory "128m" = none := by decide +kernel

end Qubicl.Core
