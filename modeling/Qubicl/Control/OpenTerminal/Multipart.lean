import Qubicl.Control.Lease.Manager
import Qubicl.Foundation.Number
import Qubicl.Foundation.Search
import Qubicl.Foundation.Utf8

/-!
# Uploads in parts (packages/control/src/open-terminal.ts:32-34, 994-1042)

A regular expression that is searched for is a function here that tries the places of the text in the order in which the
expression does. Letters of a pattern stand for both cases.
-/

namespace Qubicl.Control.OpenTerminal
open Foundation

def MAX_UPLOAD_BYTES : ℕ := 20000000
def MAX_REQUEST_BYTES : ℕ := MAX_UPLOAD_BYTES+512000

structure MultipartFile where
  filename : String
  data : List UInt8
  deriving DecidableEq, Repr

def requestTooLarge (maximum : ℕ) : QubiclError :=
  { code := "request_too_large", message := "Request body exceeds " ++ toString maximum ++ " bytes.", status := 413 }

/-- The loop of `readBody`, with the bytes that came before. -/
def readBody (maximum : ℕ) : ℕ → List (List UInt8) → Except QubiclError (List UInt8)
  | _, [] => .ok []
  | bytes, chunk::chunks =>
    if bytes+chunk.length > maximum then .error (requestTooLarge maximum)
    else (readBody maximum (bytes+chunk.length) chunks).map (chunk ++ ·)

/- The class `\w`. -/
def isWord (c : Char) : Bool := c.isAlphanum || c = '_'

def isLineTerminator (c : Char) : Bool := c ∈ ['\n','\r','\u2028','\u2029']

/-- What follows the letters of a pattern in lower case. -/
def afterLetters : List Char → List Char → Option (List Char)
  | [], text => some text
  | _::_, [] => none
  | p::pattern, c::text => if c.toLower=p then afterLetters pattern text else none

/- `"([^"]+)"`, or `"([^"]*)"` where the value may be empty, behind the first quote. -/
def quotedValue (mayBeEmpty : Bool) (text : List Char) : Option (List Char) :=
  let value:=text.takeWhile (· ≠ '"')
  if '"' ∈ text ∧ (mayBeEmpty=true ∨ value≠[]) then some value else none

/- `(?:"([^"]+)"|([^;\s]+))` -/
def boundaryValue (text : List Char) : Option (List Char) :=
  let bare:=text.takeWhile fun c => c ≠ ';' && !Number.isSpace c
  match (afterLetters ['"'] text).bind (quotedValue false) with
  | some value => some value
  | none => if bare≠[] then some bare else none

/-- `.*\bboundary=…` behind a character: the last place of the line. -/
def lastBoundary : Char → List Char → Option (List Char)
  | _, [] => none
  | previous, c::text =>
    match if isLineTerminator c then none else lastBoundary c text with
    | some value => some value
    | none => if isWord previous then none else (afterLetters "boundary=".toList (c::text)).bind boundaryValue

/-- `/^multipart\/form-data\s*;.*\bboundary=(?:"([^"]+)"|([^;\s]+))/i` -/
def boundaryOf (contentType : String) : Option String :=
  match (afterLetters "multipart/form-data".toList contentType.toList).map (·.dropWhile Number.isSpace) with
  | some (';' :: text) => (lastBoundary ';' text).map String.ofList
  | _ => none

/-- `content-disposition:\s*form-data;([^\r\n]+)` at the beginning of a line. -/
def dispositionAt (text : List Char) : Option (List Char) :=
  ((afterLetters "content-disposition:".toList text).bind fun rest =>
    afterLetters "form-data;".toList (rest.dropWhile Number.isSpace)).bind fun rest =>
      let group:=rest.takeWhile fun c => c ≠ '\r' && c ≠ '\n'
      if group≠[] then some group else none

/-- `/^content-disposition:\s*form-data;([^\r\n]+)$/im`, where a line may begin. -/
def dispositionIn : Bool → List Char → Option (List Char)
  | _, [] => none
  | lineBegins, c::text =>
    match if lineBegins then dispositionAt (c::text) else none with
    | some group => some group
    | none => dispositionIn (isLineTerminator c) text

/-- `/\bname="([^"]+)"/i` for the key `name`, after a character that is a letter of a word or not. -/
def attributeIn (key : List Char) (mayBeEmpty : Bool) : Bool → List Char → Option (List Char)
  | _, [] => none
  | afterWord, c::text =>
    match if afterWord then none else (afterLetters (key++['=','"']) (c::text)).bind (quotedValue mayBeEmpty) with
    | some value => some value
    | none => attributeIn key mayBeEmpty (isWord c) text

def invalidBoundary : QubiclError :=
  { code := "invalid_multipart", message := "A valid multipart boundary is required.", status := 400 }

def noFileField : QubiclError :=
  { code := "invalid_multipart", message := "Multipart request must contain one file field.", status := 400 }

def invalidFilename : QubiclError :=
  { code := "invalid_filename", message := "Uploaded filename is invalid.", status := 400 }

def fileTooLarge : QubiclError :=
  { code := "file_too_large", message := "Uploaded files are limited to " ++ toString MAX_UPLOAD_BYTES ++ " bytes.", status := 413 }

/- `replaceAll('\\', '/').split('/').pop()` -/
def lastComponent (filename : List Char) : List Char :=
  ((filename.map fun c => if c = '\\' then '/' else c).reverse.takeWhile (· ≠ '/')).reverse

def safeName (filename : List Char) : List Char := (lastComponent filename).filter (· ≠ '\x00')

def acceptFile (filename : List Char) (data : List UInt8) : Except QubiclError MultipartFile :=
  let name:=String.ofList (safeName filename)
  if name = "" ∨ name = "." ∨ name = ".." then .error invalidFilename
  else if data.length > MAX_UPLOAD_BYTES then .error fileTooLarge
  else .ok { filename := name, data }

def CRLF : List UInt8 := [13,10]

def slice (body : List UInt8) (start stop : ℕ) : List UInt8 := (body.take stop).drop start

/-- The passes of the loop, at most so many of them; `none` if that is not enough. -/
def scan (delimiter partEnd body : List UInt8) : ℕ → ℕ → Option (Except QubiclError MultipartFile)
  | 0, _ => none
  | passes+1, cursor =>
    let cursor:=cursor+delimiter.length
    if slice body cursor (cursor+2)=[45,45] then some (.error noFileField)
    else
      let cursor:=if slice body cursor (cursor+2)=CRLF then cursor+2 else cursor
      match indexFrom (CRLF++CRLF) body cursor with
      | none => some (.error noFileField)
      | some headersEnd =>
        if headersEnd - cursor > 16384 then some (.error noFileField)
        else
          match indexFrom partEnd body (headersEnd+4) with
          | none => some (.error noFileField)
          | some stop =>
            let headers:=Utf8.decode (slice body cursor headersEnd)
            let disposition:=(dispositionIn true headers.toList).getD []
            match attributeIn "name".toList false false disposition, attributeIn "filename".toList true false disposition with
            | some name, some filename =>
              if name = "file".toList ∧ filename≠[] then some (acceptFile filename (slice body (headersEnd+4) stop))
              else scan delimiter partEnd body passes (stop+2)
            | _, _ => scan delimiter partEnd body passes (stop+2)

def delimiterOf (boundary : String) : List UInt8 := Utf8.encode ("--" ++ boundary)

def partEndOf (boundary : String) : List UInt8 := Utf8.encode ("\r\n--" ++ boundary)

/- One pass more than there are bytes. -/
def scanBody (boundary : String) (body : List UInt8) : Option (Except QubiclError MultipartFile) :=
  match indexOf (delimiterOf boundary) body with
  | none => some (.error noFileField)
  | some cursor => scan (delimiterOf boundary) (partEndOf boundary) body (body.length+1) cursor

def readMultipartFile (contentType : Option String) (chunks : List (List UInt8)) : Option (Except QubiclError MultipartFile) :=
  match contentType.bind boundaryOf with
  | none => some (.error invalidBoundary)
  | some boundary =>
    if utf16Length boundary > 200 then some (.error invalidBoundary)
    else
      match readBody MAX_REQUEST_BYTES 0 chunks with
      | .error error => some (.error error)
      | .ok body => scanBody boundary body

theorem readMultipartFile_eq {text boundary : String} (hbou : boundaryOf text=some boundary)
    (hsho : utf16Length boundary≤200) (chunks : List (List UInt8)) :
    readMultipartFile (some text) chunks =
      match readBody MAX_REQUEST_BYTES 0 chunks with
      | .error error => some (.error error)
      | .ok body => scanBody boundary body := by
  unfold readMultipartFile
  rw [Option.bind_some,hbou]
  exact if_neg (Nat.not_lt.2 hsho)

end Qubicl.Control.OpenTerminal
