import Qubicl.Cli.BackupArchive.Entries
import Qubicl.Cli.State
import Qubicl.Core.ExposureRuntime
import Qubicl.Foundation.StringMap
import Qubicl.Gateway.Headers

/-!
# Files of an exposure (packages/cli/src/gateway-access.ts:282-353, 448-558, packages/gateway/src/server.ts:1142-1268)

The CLI keeps the document, the certificate, the key and the client CA of an exposure in one directory,
and replaces them one after another through temporary files. The gateway reads them when it starts.
-/

namespace Qubicl.Cli.Exposure
open Foundation Core Durable
open Gateway (lowerCase)
open BackupArchive (quote)

/- A value, or what is thrown without one. -/
def orThrow {ε α : Type} (error : ε) : Option α → Except ε α
  | some value => .ok value
  | none => .error error

structure X509Certificate where
  validFrom : String
  validTo : String
  fingerprint256 : String
  subject : String
  issuer : String
  subjectAltName : Option String
  checkHost : String → Bool
  checkIP : String → Bool

/-- What Node.js does: certificates, keys and TLS, dates, URLs and JSON. The errors of OpenSSL are its own. -/
structure Platform where
  x509 : String → Except String X509Certificate
  createSecureContext : String → String → Option String → Except String Unit
  publicKeysMatch : String → String → Except String Bool
  dateParse : String → Option ℕ
  toISOString : ℕ → String
  urlHostname : String → Option String
  stringify : GatewayExposureRuntime → String
  stringifyIndented : GatewayExposureRuntime → String
  parse : String → Option GatewayExposureRuntime
  parse_stringify : ∀ runtime, parse (stringifyIndented runtime ++ "\n")=some runtime

structure GatewayCertificateSummary where
  fingerprint256 : String
  notBefore : String
  notAfter : String
  subject : String
  issuer : String
  subjectAltName : Option String
  clientCertificatesRequired : Bool
  deriving DecidableEq, Repr

def PREVIEW_CERTIFICATE_PROBE_ID : String := "00000000-0000-4000-8000-000000000001"

section Certificates
variable (z : Formats) (node : Platform)

def certificateCoversGatewayHostname (certificate : X509Certificate) (hostname : String) : Bool :=
  if z.isIP hostname=0 then certificate.checkHost hostname else certificate.checkIP hostname

def alternativeNames (certificate : X509Certificate) : List String :=
  ((certificate.subjectAltName.getD "").toList.splitOn ',').map fun entry =>
    lowerCase (trimText (String.ofList entry))

/- `value.trim().replace(/^\[|\]$/gu, '').replace(/\.$/u, '').toLowerCase()` -/
def hostnameCandidate (value : String) : String :=
  let text:=(trimText value).toList
  let text:=if text.head? = some '[' then text.tail else text
  let text:=if text.getLast? = some ']' then text.dropLast else text
  lowerCase (String.ofList (if text.getLast? = some '.' then text.dropLast else text))

def parsedHostname (value : String) : Except String String :=
  if gatewayHostname z value then .ok value else .error "must be a lowercase DNS hostname or IP address"

def normalizeGatewayHostname (value : String) : Except String String :=
  let candidate:=hostnameCandidate value
  if z.isIP candidate≠0 then parsedHostname z candidate
  else if candidate.toList.any fun c => "/:@?#".toList.contains c then
    .error "Gateway hostname must not contain a scheme, port, credentials, path, query, or fragment."
  else match node.urlHostname ("https://" ++ candidate) with
    | none => .error "Gateway hostname must be a DNS hostname or IP address."
    | some normalized => parsedHostname z normalized

def normalizeGatewayPreviewDomain (value : String) : Except String String := do
  let hostname ← normalizeGatewayHostname z node value
  rejectIf (gatewayPreviewDomain z hostname=false) "must be a DNS domain, not an IP address"
  .ok hostname

def certificateHasPreviewWildcard (certificate : X509Certificate) (previewDomain : String) : Except String Bool := do
  let domain ← normalizeGatewayPreviewDomain z node previewDomain
  .ok ((alternativeNames certificate).contains (lowerCase ("DNS:*." ++ domain)))

def assertCertificateHostname (certificate : X509Certificate) (hostname label : String) : Except String Unit :=
  rejectIf (certificateCoversGatewayHostname z certificate hostname=false)
    ("Gateway certificate does not cover the " ++ label ++ " " ++ hostname ++ ".")

def assertCertificatePreviewWildcard (certificate : X509Certificate) (previewDomain : String) :
    Except String Unit := do
  let wildcard ← certificateHasPreviewWildcard z node certificate previewDomain
  rejectIf (wildcard=false)
    ("Gateway certificate does not contain the required DNS:*." ++ previewDomain ++ " remote preview wildcard SAN.")

def parseCertificateDate (value label : String) : Except String ℕ :=
  orThrow ("Gateway certificate " ++ label ++ " date is invalid.") (node.dateParse value)

def fingerprintText (certificate : X509Certificate) : String :=
  "sha256:" ++ lowerCase (String.ofList (certificate.fingerprint256.toList.filter (· ≠ ':')))

def readTlsMaterial (secret : GatewayExposureTlsSecret) : Except String X509Certificate := do
  let certificate ← node.x509 secret.certificateChainPem
  node.createSecureContext secret.certificateChainPem secret.privateKeyPem secret.clientCertificateAuthorityPem
  let same ← node.publicKeysMatch secret.certificateChainPem secret.privateKeyPem
  rejectIf (same=false) "certificate and private key public keys do not match"
  match secret.clientCertificateAuthorityPem with
  | none => .ok certificate
  | some authority => do
    let _ ← node.x509 authority
    .ok certificate

def assertGatewayExposureTlsSecretMatches (exposure : Option GatewayExposureConfig)
    (secret : Option GatewayExposureTlsSecret) : Except String Unit :=
  rejectIf (gatewayExposureTlsSecretMatches z exposure secret=false)
    "Gateway exposure TLS secret material does not match the configured immutable digests."

def assertCurrent (notBefore notAfter now : ℕ) : Bool → Except String Unit
  | false => .ok ()
  | true => do
    rejectIf (now<notBefore) ("Configured gateway certificate is not valid until " ++ node.toISOString notBefore ++ ".")
    rejectIf (notAfter≤now) ("Configured gateway certificate expired at " ++ node.toISOString notAfter ++ ".")

def assertPreviewCertificate (certificate : X509Certificate) : Option String → Except String Unit
  | none => .ok ()
  | some previewDomain => do
    assertCertificateHostname z certificate (gatewayPreviewHostname PREVIEW_CERTIFICATE_PROBE_ID previewDomain)
      "remote preview wildcard hostname"
    assertCertificatePreviewWildcard z node certificate previewDomain

def validateConfiguredGatewayTls (exposure : GatewayExposureConfig) (secret : GatewayExposureTlsSecret) (now : ℕ)
    (requireCurrent : Bool) : Except String GatewayCertificateSummary := do
  assertGatewayExposureTlsSecretMatches z (some exposure) (some secret)
  let certificate ← (readTlsMaterial node secret).mapError
    ("Configured gateway TLS material is invalid or mismatched: " ++ ·)
  let notBefore ← parseCertificateDate node certificate.validFrom "not-before"
  let notAfter ← parseCertificateDate node certificate.validTo "not-after"
  assertCurrent node notBefore notAfter now requireCurrent
  assertCertificateHostname z certificate exposure.hostname "gateway hostname"
  assertPreviewCertificate z node certificate exposure.previewDomain
  rejectIf (fingerprintText certificate≠exposure.tls.certificateFingerprint256 ∨
      node.toISOString notBefore≠exposure.tls.certificateNotBefore ∨
      node.toISOString notAfter≠exposure.tls.certificateNotAfter)
    "Configured gateway certificate metadata does not match the protected TLS snapshot."
  .ok ⟨fingerprintText certificate,node.toISOString notBefore,node.toISOString notAfter,certificate.subject,
    certificate.issuer,certificate.subjectAltName,secret.clientCertificateAuthorityPem.isSome⟩

end Certificates

abbrev Entries := List (String × Place String)

def GATEWAY_EXPOSURE_RUNTIME_DOCUMENT : String := "gateway-exposure.json"
def GATEWAY_EXPOSURE_CERTIFICATE_FILE : String := "certificate.pem"
def GATEWAY_EXPOSURE_PRIVATE_KEY_FILE : String := "private-key.pem"
def GATEWAY_EXPOSURE_CLIENT_CA_FILE : String := "client-ca.pem"

def runtimeFiles : List String :=
  [GATEWAY_EXPOSURE_RUNTIME_DOCUMENT,GATEWAY_EXPOSURE_CERTIFICATE_FILE,GATEWAY_EXPOSURE_PRIVATE_KEY_FILE,
    GATEWAY_EXPOSURE_CLIENT_CA_FILE]

def exposureDirectory (paths : StatePaths) : String := join paths.runtime "gateway-exposure"

def entry (name : String) (place : Place Entries) : Place String :=
  match place.content? with
  | some entries => (entries.lookup name).getD .absent
  | none => .absent

/-- The user that runs the CLI, what one run draws at random after its process ID, and after how many
characters its writes can be cut. -/
structure Host where
  uid : ℕ
  suffix : Entries → String
  written : String → List ℕ

section Files
variable (host : Host) (directory : String)

def temporaryName (name : String) (entries : Entries) : String := name ++ "." ++ host.suffix entries ++ ".tmp"

def hasEntry (name : String) (entries : Entries) : Bool := (entries.lookup name).isSome

/- `open(temporary, 'wx', mode)` -/
def createTemporary (temporary : String) (mode : ℕ) : Durable Entries String Unit := do
  reads fun entries => rejectIf (hasEntry temporary entries=true)
    ("EEXIST: file already exists, open '" ++ join directory temporary ++ "'")
  write (mapSet temporary (.real host.uid mode ""))

def writeFile (temporary contents : String) (mode : ℕ) : Durable Entries String Unit :=
  writes fun entries => ((host.written contents).map fun n =>
    mapSet temporary (.real host.uid mode (String.ofList (contents.toList.take n))) entries) ++
    [mapSet temporary (.real host.uid mode contents) entries]

def renameTemporary (temporary name contents : String) (mode : ℕ) : Durable Entries String Unit := do
  reads fun entries => rejectIf (entries.lookup name=some (.foreign true))
    ("EISDIR: illegal operation on a directory, rename '" ++ join directory temporary ++ "' -> '" ++
      join directory name ++ "'")
  write fun entries => mapSet name (.real host.uid mode contents) (mapDelete temporary entries)

/- Only the temporary file is opened with the mode; the `chmod` repeats it. -/
def atomicWrite (name contents : String) (mode : ℕ) : Durable Entries String Unit := do
  let temporary ← reads fun entries => .ok (temporaryName host name entries)
  rescued (do
    createTemporary host directory temporary mode
    writeFile host temporary contents mode
    renameTemporary host directory temporary name contents mode) (write (mapDelete temporary))
  write (mapDelete temporary)

def durableRemove (name : String) : Durable Entries String Unit := do
  reads fun entries => rejectIf (entries.lookup name=some (.foreign true))
    ("ERR_FS_EISDIR: Path is a directory: rm returned EISDIR " ++ join directory name)
  write (mapDelete name)

end Files

section Runtime
variable (z : Formats) (node : Platform) (host : Host) (paths : StatePaths)

def assertRuntimeDirectory : Place Entries → Except String Unit
  | .absent => .error ("ENOENT: no such file or directory, lstat '" ++ exposureDirectory paths ++ "'")
  | .real owner _ _ =>
    if owner=host.uid then .ok ()
    else .error (exposureDirectory paths ++ " is owned by UID " ++ toString owner ++ ", not current UID " ++
      toString host.uid ++ ".")
  | _ => .error (exposureDirectory paths ++ " is not a real gateway exposure runtime directory.")

def ensurePrivateRuntimeDirectory : Durable (Place Entries) String Unit := do
  mkdir host.uid (exposureDirectory paths)
  reads (assertRuntimeDirectory host paths)
  write (Place.chmod 0o700)

def unlinkEntry (entry : String × Place String) : Durable Entries String Unit := do
  reads fun _ => rejectIf (∃ directory, entry.2 = .foreign directory)
    ("Gateway exposure runtime entry " ++ entry.1 ++ " is not a regular file.")
  write (mapDelete entry.1)

def unexpectedEntries (entries : Entries) : List String :=
  (entries.map Prod.fst).filter fun name => !runtimeFiles.contains name

def unlinkEntries (entries : Entries) : Durable Entries String Unit := do
  reads fun _ => rejectIf (unexpectedEntries entries≠[])
    ("Gateway exposure runtime directory contains unexpected entries: " ++
      ", ".intercalate (unexpectedEntries entries) ++ ".")
  forEach entries unlinkEntry

def removeDirectory : Durable (Place Entries) String Unit
  | .real _ _ [] => ⟨[.absent],.ok ()⟩
  | _ => ⟨[],.error ("ENOTEMPTY: directory not empty, rmdir '" ++ exposureDirectory paths ++ "'")⟩

def removeGatewayExposureRuntime : Durable (Place Entries) String Unit := fun place =>
  match place with
  | .absent => ⟨[],.ok ()⟩
  | .real _ _ entries => (do
    inside (exposureDirectory paths) (unlinkEntries entries)
    removeDirectory paths : Durable (Place Entries) String Unit) place
  | _ => ⟨[],.error (exposureDirectory paths ++ " is not Qubicl's real gateway exposure runtime directory.")⟩

def parseExposureRuntime (runtime : GatewayExposureRuntime) : Except String GatewayExposureRuntime :=
  if gatewayExposureRuntimeSchema z runtime then .ok runtime else .error "Invalid gateway exposure runtime."

def documentText (runtime : GatewayExposureRuntime) : String := node.stringifyIndented runtime ++ "\n"

def replaceAuthority : Option String → Durable Entries String Unit
  | some authority =>
    atomicWrite host (exposureDirectory paths) GATEWAY_EXPOSURE_CLIENT_CA_FILE authority 0o600
  | none => durableRemove (exposureDirectory paths) GATEWAY_EXPOSURE_CLIENT_CA_FILE

def replaceFiles (exposure : GatewayExposureConfig) (secret : GatewayExposureTlsSecret) :
    Durable Entries String Unit := do
  atomicWrite host (exposureDirectory paths) GATEWAY_EXPOSURE_CERTIFICATE_FILE secret.certificateChainPem 0o600
  atomicWrite host (exposureDirectory paths) GATEWAY_EXPOSURE_PRIVATE_KEY_FILE secret.privateKeyPem 0o600
  replaceAuthority host paths secret.clientCertificateAuthorityPem
  let runtime ← ofExcept (parseExposureRuntime z (gatewayExposureRuntime exposure))
  atomicWrite host (exposureDirectory paths) GATEWAY_EXPOSURE_RUNTIME_DOCUMENT (documentText node runtime) 0o600

def materializeGatewayExposure (exposure : Option GatewayExposureConfig) (secret : Option GatewayExposureTlsSecret)
    (now : ℕ) : Durable (Place Entries) String Unit := do
  ofExcept (assertGatewayExposureTlsSecretMatches z exposure secret)
  match exposure, secret with
  | some exposure, some secret => do
    let _ ← ofExcept (validateConfiguredGatewayTls z node exposure secret now false)
    ensurePrivateRuntimeDirectory host paths
    inside (exposureDirectory paths) (replaceFiles z node host paths exposure secret)
  | _, _ => removeGatewayExposureRuntime paths

end Runtime

def MAX_CERTIFICATE_BYTES : ℕ := 1048576
def MAX_PRIVATE_KEY_BYTES : ℕ := 262144
def MAX_CLIENT_CA_BYTES : ℕ := 1048576
def MAX_EXPOSURE_DOCUMENT_BYTES : ℕ := 128*1024

def boundedText (maximumBytes : ℕ) (text : String) : Bool :=
  decide (0<text.utf8ByteSize) && decide (text.utf8ByteSize ≤ maximumBytes)

def privateMode (mode : ℕ) : Bool := mode &&& 0o077 == 0

def nulFree (text : String) : Bool := !text.toList.contains '\x00'

def unreadable {α : Type} (path label reason : String) : Except String α :=
  .error ("Unable to read gateway " ++ label ++ " from " ++ quote path ++ ": " ++ reason)

def readBoundedPem (path : String) (maximumBytes : ℕ) (label : String) (requirePrivateMode : Bool) :
    Place String → Except String String
  | .absent => unreadable path label ("ENOENT: no such file or directory, open '" ++ path ++ "'")
  | .link _ => .error (label ++ " source must be a regular file, not a symbolic link.")
  | .foreign _ => unreadable path label (label ++ " source is not a regular file")
  | .real _ mode text =>
    if !boundedText maximumBytes text then
      unreadable path label (label ++ " source exceeds its " ++ toString maximumBytes ++ "-byte bound")
    else if requirePrivateMode && !privateMode mode then
      unreadable path label (label ++ " source must not be readable or writable by group or other users")
    else if !nulFree text then unreadable path label (label ++ " source is not valid PEM text")
    else .ok text

section Validation
variable (z : Formats) (node : Platform) (paths : StatePaths) (place : Place Entries)

def readRuntime (name : String) (maximumBytes : ℕ) (label : String) : Except String String :=
  readBoundedPem (join (exposureDirectory paths) name) maximumBytes label true (entry name place)

def validateRuntimeAuthority : Option String → Except String Unit
  | some expected => do
    let authority ← readRuntime paths place GATEWAY_EXPOSURE_CLIENT_CA_FILE MAX_CLIENT_CA_BYTES
      "runtime client certificate authority"
    rejectIf (authority≠expected)
      "Managed gateway runtime client certificate authority does not match the protected snapshot."
  | none => rejectIf (entry GATEWAY_EXPOSURE_CLIENT_CA_FILE place≠.absent)
      "Managed gateway runtime contains an unexpected client certificate authority file."

def validateGatewayExposureRuntimeSnapshot (exposure : Option GatewayExposureConfig)
    (secret : Option GatewayExposureTlsSecret) (now : ℕ) (requireCurrent : Bool) :
    Except String GatewayCertificateSummary :=
  match exposure, secret with
  | some exposure, some secret => do
    let summary ← validateConfiguredGatewayTls z node exposure secret now requireCurrent
    let certificate ← readRuntime paths place GATEWAY_EXPOSURE_CERTIFICATE_FILE MAX_CERTIFICATE_BYTES
      "runtime certificate chain"
    let privateKey ← readRuntime paths place GATEWAY_EXPOSURE_PRIVATE_KEY_FILE MAX_PRIVATE_KEY_BYTES
      "runtime private key"
    let document ← readRuntime paths place GATEWAY_EXPOSURE_RUNTIME_DOCUMENT MAX_EXPOSURE_DOCUMENT_BYTES
      "runtime document"
    rejectIf (certificate≠secret.certificateChainPem ∨ privateKey≠secret.privateKeyPem)
      "Managed gateway runtime TLS files do not match the protected snapshot."
    validateRuntimeAuthority paths place secret.clientCertificateAuthorityPem
    let parsed ← orThrow "Managed gateway exposure runtime document is invalid."
      ((node.parse document).filter (gatewayExposureRuntimeSchema z))
    rejectIf (node.stringify parsed≠node.stringify (gatewayExposureRuntime exposure))
      "Managed gateway exposure runtime document does not match durable configuration."
    .ok summary
  | _, _ => .error "Gateway exposure is not configured with protected TLS material."

end Validation

structure GatewayExposureError where
  code : String
  message : String
  deriving DecidableEq, Repr

structure GatewayExternalAccess where
  runtime : GatewayExposureRuntime
  listenPort : ℕ
  certificate : String
  privateKey : String
  clientCertificateAuthority : Option String
  deriving DecidableEq, Repr

section Loading
variable (z : Formats) (node : Platform) (place : Place Entries)

def readBoundedGatewayFile (maximumBytes : ℕ) (requirePrivateMode : Bool) (code : String) :
    Place String → Except GatewayExposureError String
  | .real _ mode text =>
    if !boundedText maximumBytes text || (requirePrivateMode && !privateMode mode) then
      .error ⟨code,"A bounded gateway exposure runtime file could not be read safely."⟩
    else .ok text
  | _ => .error ⟨code,"A bounded gateway exposure runtime file could not be read safely."⟩

def readAuthority (named : Bool) : Except GatewayExposureError (Option String) :=
  if named then
    (readBoundedGatewayFile MAX_CLIENT_CA_BYTES true "tls_material_invalid"
      (entry GATEWAY_EXPOSURE_CLIENT_CA_FILE place)).map some
  else .ok none

def readLeaf (secret : GatewayExposureTlsSecret) : Except GatewayExposureError X509Certificate :=
  (readTlsMaterial node secret).mapError fun _ => ⟨"tls_material_invalid",
    "Gateway TLS material is invalid or the private key does not match the certificate."⟩

def checkLeaf (runtime : GatewayExposureRuntime) (leaf : X509Certificate) (now : ℕ) :
    Except GatewayExposureError Unit :=
  match node.dateParse leaf.validFrom, node.dateParse leaf.validTo with
  | some notBefore, some notAfter => do
    rejectIf (some notBefore≠node.dateParse runtime.certificateNotBefore ∨
        some notAfter≠node.dateParse runtime.certificateNotAfter ∨
        fingerprintText leaf≠runtime.certificateFingerprint256)
      ⟨"tls_material_mismatch","The gateway certificate metadata does not match the runtime document."⟩
    rejectIf (now<notBefore) ⟨"certificate_not_yet_valid","The gateway certificate is not yet valid."⟩
    rejectIf (notAfter≤now) ⟨"certificate_expired","The gateway certificate is expired."⟩
    rejectIf (certificateCoversGatewayHostname z leaf runtime.hostname=false)
      ⟨"certificate_hostname_mismatch","The gateway certificate does not cover the configured external hostname."⟩
    match runtime.previewDomain with
    | none => .ok ()
    | some domain =>
      rejectIf (certificateCoversGatewayHostname z leaf
          (gatewayPreviewHostname PREVIEW_CERTIFICATE_PROBE_ID domain)=false ∨
          (alternativeNames leaf).contains (lowerCase ("DNS:*." ++ domain))=false)
        ⟨"certificate_preview_mismatch",
          "The gateway certificate does not contain the required remote-preview wildcard SAN."⟩
  | _, _ => .error ⟨"certificate_invalid","The gateway certificate validity dates are invalid."⟩

/-- The paths of the environment name the files of the directory, the client CA or not. -/
def loadGatewayExternalAccess (authorityNamed : Bool) (listenPort now : ℕ) :
    Except GatewayExposureError GatewayExternalAccess := do
  rejectIf (listenPort<1 ∨ 65535<listenPort)
    ⟨"environment_invalid","The external gateway container port is invalid."⟩
  let text ← readBoundedGatewayFile MAX_EXPOSURE_DOCUMENT_BYTES false "runtime_document_invalid"
    (entry GATEWAY_EXPOSURE_RUNTIME_DOCUMENT place)
  let runtime ← orThrow ⟨"runtime_document_invalid","The gateway exposure runtime document is invalid."⟩
    ((if nulFree text then node.parse text else none).filter (gatewayExposureRuntimeSchema z))
  let certificate ← readBoundedGatewayFile MAX_CERTIFICATE_BYTES false "tls_material_invalid"
    (entry GATEWAY_EXPOSURE_CERTIFICATE_FILE place)
  let privateKey ← readBoundedGatewayFile MAX_PRIVATE_KEY_BYTES true "tls_material_invalid"
    (entry GATEWAY_EXPOSURE_PRIVATE_KEY_FILE place)
  let authority ← readAuthority place authorityNamed
  rejectIf (runtime.clientCertificateAuthoritySha256.isNone≠authority.isNone) ⟨"tls_material_mismatch",
    "The configured client certificate authority does not match the runtime TLS document."⟩
  rejectIf (z.sha256Text certificate≠runtime.certificateSha256 ∨ z.sha256Text privateKey≠runtime.privateKeySha256 ∨
      authority.map z.sha256Text≠runtime.clientCertificateAuthoritySha256)
    ⟨"tls_material_mismatch","Gateway TLS material does not match its immutable runtime digests."⟩
  let leaf ← readLeaf node ⟨"",certificate,privateKey,authority⟩
  checkLeaf z node runtime leaf now
  .ok ⟨runtime,listenPort,certificate,privateKey,authority⟩

end Loading

end Qubicl.Cli.Exposure
