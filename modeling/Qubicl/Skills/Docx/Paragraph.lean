import Mathlib.Algebra.GroupWithZero.Nat
import Qubicl.Foundation.Occurrences

/-!
# Replacing text in a paragraph (skills/core/docx/scripts/docx_common.py:56-124)

A paragraph is a list of runs and of other structure, and a run is a list of text nodes and of other elements.
-/

namespace Qubicl.Skills.Docx
open Foundation

/- What the XML library accepts as text. -/
def xmlChar (c : Char) : Bool :=
  (c = '\t' || c = '\n' || c = '\r' || 0x20≤c.toNat) && c.toNat≠0xfffe && c.toNat≠0xffff

/- Along the text. -/
instance (priority := 2000) (text : List Char) : Decidable (∀ c ∈ text, xmlChar c=true) := List.decidableBAll _ text

structure XmlText where
  chars : List Char
  valid : ∀ c ∈ chars, xmlChar c=true
  deriving DecidableEq

def XmlText.ofChars? (chars : List Char) : Option XmlText :=
  if valid : ∀ c ∈ chars, xmlChar c=true then some ⟨chars,valid⟩ else none

/- An element that is no text node, with what `Paragraph.text` reads of it: a line feed for a line break, a hyphen for one
that does not break, the text of the runs for a hyperlink, nothing for a drawing, a bookmark or a field. -/
structure Element where
  markup : String
  visible : List Char
  deriving DecidableEq

inductive RunChild
  | text (node : XmlText)
  | tab
  | lineBreak
  | properties (markup : String)
  | other (element : Element)
  deriving DecidableEq

inductive Child
  | properties (markup : String)
  | run (children : List RunChild)
  | other (element : Element)
  deriving DecidableEq

abbrev Paragraph := List Child

def RunChild.visible : RunChild → List Char
  | text node => node.chars
  | tab => ['\t']
  | lineBreak => ['\n']
  | properties _ => []
  | other element => element.visible

def Child.visible : Child → List Char
  | properties _ => []
  | run children => children.flatMap RunChild.visible
  | other element => element.visible

/-- `para.text` -/
def Paragraph.text (para : Paragraph) : List Char := para.flatMap Child.visible

structure Segments where
  segments : List (List XmlText)
  current : List XmlText

def Segments.boundary (s : Segments) : Segments :=
  if s.current.isEmpty then s else ⟨s.segments++[s.current],[]⟩

def Segments.node (s : Segments) : RunChild → Segments
  | .text node => { s with current := s.current++[node] }
  | .properties _ => s
  | _ => s.boundary

def Segments.child (s : Segments) : Child → Segments
  | .properties _ => s
  | .run children => children.foldl Segments.node s
  | .other _ => s.boundary

def segments (para : Paragraph) : List (List XmlText) := (para.foldl Segments.child ⟨[],[]⟩).boundary.segments

def segmentText (nodes : List XmlText) : List Char := nodes.flatMap XmlText.chars

/-- `text.replace("\r\n", "\n").replace("\r", "\n")` -/
def normalized : List Char → List Char
  | '\r' :: '\n' :: rest => '\n' :: normalized rest
  | '\r' :: rest => '\n' :: normalized rest
  | c::rest => c::normalized rest
  | [] => []

/- A text node of a segment, with what has been put behind it. -/
structure Slot where
  node : XmlText
  start : ℕ
  stop : ℕ
  behind : List RunChild

def slots : ℕ → List XmlText → List Slot
  | _, [] => []
  | position, node::rest =>
    ⟨node,position,position+node.chars.length,[]⟩::slots (position+node.chars.length) rest

/- `re.split(r"([\t\n])", text)`: the first piece, and the others, each with the separator before it. -/
def pieces : List Char → List Char × List (Char × List Char)
  | [] => ([],[])
  | c::rest =>
    let (first,others) := pieces rest
    if c = '\t' ∨ c = '\n' then ([],(c,first)::others) else (c::first,others)

def separator (c : Char) : RunChild := if c = '\t' then .tab else .lineBreak

/- The elements that follow the text node. A text that is no XML ends it, with what was added so far. -/
def elements : List (Char × List Char) → Except (List RunChild) (List RunChild)
  | [] => .ok []
  | (c,piece)::rest =>
    match XmlText.ofChars? piece with
    | none => .error [separator c]
    | some node =>
      match elements rest with
      | .ok more => .ok (separator c::.text node::more)
      | .error more => .error (separator c::.text node::more)

/- One assignment of a text, from `text = ...` on. -/
def Slot.assign (slot : Slot) (text : List Char) : Except Slot Slot :=
  let (first,others) := pieces (normalized text)
  match XmlText.ofChars? first with
  | none => .error slot
  | some node =>
    match elements others with
    | .ok more => .ok { slot with node := node, behind := more++slot.behind }
    | .error more => .error { slot with node := node, behind := more++slot.behind }

/- The inner loop, for one match: only the first node that it touches receives the replacement. -/
def editSlots (start stop : ℕ) (new : List Char) : Bool → List Slot → Except (List Slot) (List Slot)
  | _, [] => .ok []
  | first, slot::rest =>
    if slot.stop ≤ start ∨ stop ≤ slot.start then
      match editSlots start stop new first rest with
      | .ok rest => .ok (slot::rest)
      | .error rest => .error (slot::rest)
    else
      let a:=max slot.start start - slot.start
      let b:=min slot.stop stop - slot.start
      match slot.assign (slot.node.chars.take a++(if first then new else [])++slot.node.chars.drop b) with
      | .error slot => .error (slot::rest)
      | .ok slot =>
        match editSlots start stop new false rest with
        | .ok rest => .ok (slot::rest)
        | .error rest => .error (slot::rest)

/-- The places of a pattern, as `finditer` gives them. -/
abbrev Pattern := List Char → List (ℕ × ℕ)

section Matches
variable (pattern : Pattern) (replacement : List Char → List Char)

def editMatches (text : List Char) : List (ℕ × ℕ) → List Slot → Except (List Slot) (List Slot)
  | [], current => .ok current
  | (start,stop)::earlier, current =>
    match editSlots start stop (replacement ((text.take stop).drop start)) true current with
    | .ok current => editMatches text earlier current
    | .error current => .error current

def editSegments : List (List XmlText) → Except (List Slot) (List Slot)
  | [] => .ok []
  | nodes::rest =>
    match editMatches replacement (segmentText nodes) (pattern (segmentText nodes)).reverse (slots 0 nodes) with
    | .error current => .error (current++(rest.flatMap (slots 0)))
    | .ok current =>
      match editSegments rest with
      | .ok more => .ok (current++more)
      | .error more => .error (current++more)

def rebuildRun : List RunChild → List Slot → List RunChild × List Slot
  | [], current => ([],current)
  | .text node::rest, [] => (.text node::rest,[])
  | .text _::rest, slot::current =>
    let (children,left) := rebuildRun rest current
    (.text slot.node::(slot.behind++children),left)
  | child::rest, current =>
    let (children,left) := rebuildRun rest current
    (child::children,left)

def rebuild : Paragraph → List Slot → Paragraph
  | [], _ => []
  | .run children::rest, current =>
    let (children,left) := rebuildRun children current
    .run children::rebuild rest left
  | child::rest, current => child::rebuild rest current

/- The paragraph as it is left, with the count or the error. -/
def replaceMatchesInParagraph (para : Paragraph) : Paragraph × Except String ℕ :=
  let count:=((segments para).map fun nodes => (pattern (segmentText nodes)).length).sum
  if count≠(pattern para.text).length then
    (para,.error
      "Replacement crosses a tab, break, field, drawing or unsupported paragraph structure; edit a plain-text span instead")
  else
    match editSegments pattern replacement (segments para) with
    | .ok current => (rebuild para current,.ok count)
    | .error current =>
      (rebuild para current,
        .error "All strings must be XML compatible: Unicode or ASCII, no NULL bytes or control characters")

end Matches

/-- `re.compile(re.escape(old)).finditer` -/
def literal (old : List Char) : Pattern := fun text => (occurrences old text).map fun start => (start,start+old.length)

def replaceInParagraph (para : Paragraph) (old new : List Char) : Paragraph × Except String ℕ :=
  if old=[] then (para,.ok 0) else replaceMatchesInParagraph (literal old) (fun _ => new) para

end Qubicl.Skills.Docx
