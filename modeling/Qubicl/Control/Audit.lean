import Mathlib.Data.List.DropRight
import Qubicl.Foundation.Rewrites

/-!
# Compaction of audit files

`compactStableFile` keeps the end of a file that has become too long.
-/

namespace Qubicl.Control.Audit
open Foundation Durable List

def MAX_BYTES : ℕ := 10*1024*1024
def RETAIN_BYTES : ℕ := 6*1024*1024

def newline : UInt8 := 0x0a

/- What follows the first line feed of the last bytes. -/
def retained (data : List UInt8) : List UInt8 :=
  let tail:=data.rtake RETAIN_BYTES
  if newline ∈ tail then tail.drop (tail.idxOf newline+1) else []

variable {κ : Type} [DecidableEq κ]

def readFile (path : κ) : Durable (Files κ UInt8) String (List UInt8) :=
  reads fun files => (files path).elim (.error "ENOENT: no such file or directory") .ok

def writeFile (path : κ) (content : List UInt8) : Durable (Files κ UInt8) String Unit :=
  write fun files => Function.update files path (some content)

def compactStableFile (path : κ) : Durable (Files κ UInt8) String Unit := do
  let data ← readFile path
  truncate path
  writeFile path (retained data)

/- `AuditLog.record`; `event` is the bounded event as JSON. -/
def record (path : κ) (event : List UInt8) : Durable (Files κ UInt8) String Unit := do
  let size ← reads fun files => .ok ((files path).getD []).length
  when (decide (MAX_BYTES<size)) (compactStableFile path)
  appendFile path (event++[newline])

theorem retained_lines {data line : List UInt8} (h : line ∈ linesOf newline (retained data)) :
    line ∈ linesOf newline data := by
  unfold retained at h
  dsimp only at h
  split at h
  case isFalse => simp [linesOf] at h
  case isTrue hmem =>
    have hlt:=idxOf_lt_length_of_mem hmem
    have htai : data.rtake RETAIN_BYTES=(data.rtake RETAIN_BYTES).take ((data.rtake RETAIN_BYTES).idxOf newline) ++
        newline::(data.rtake RETAIN_BYTES).drop ((data.rtake RETAIN_BYTES).idxOf newline+1) := by
      conv_lhs => rw [← take_append_drop ((data.rtake RETAIN_BYTES).idxOf newline) (data.rtake RETAIN_BYTES)]
      rw [drop_eq_getElem_cons hlt,getElem_idxOf hlt]
    have hdat : data=data.take (data.length - RETAIN_BYTES)++data.rtake RETAIN_BYTES :=
      (take_append_drop _ _).symm
    rw [hdat,htai,← append_assoc,linesOf_append]
    exact mem_append_right _ h

/-- The states of a file whose content becomes `retained`: a line that is retained is there, or the file is empty. -/
def Compacting (data : List UInt8) (path : κ) (now : Files κ UInt8) : Prop :=
  (∀ line ∈ linesOf newline (retained data), line ∈ linesOf newline ((now path).getD [])) ∨ now path=some []

theorem wp_compactStableFile {files : Files κ UInt8} {path : κ} {data : List UInt8} (h : files path=some data) :
    wp (compactStableFile path) ⟨Compacting data path,fun _ now => now=Function.update files path (some (retained data)),
      fun _ _ => False⟩ files := by
  have hkep : Compacting data path (Function.update files path (some (retained data))) :=
    .inl fun line hlin => by rwa [Function.update_self,Option.getD_some]
  unfold compactStableFile readFile truncate writeFile
  simp only [wp_bind,wp_reads,wp_write,h,Option.elim_some,Option.map_some,Function.update_idem]
  exact ⟨.inr (Function.update_self ..),hkep,trivial⟩

end Qubicl.Control.Audit
