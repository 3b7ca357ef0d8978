import Qubicl.Foundation.Number
import Qubicl.Foundation.Regex
import Qubicl.Foundation.Schema

/-!
# Gateway access (packages/core/src/gateway-access.ts:9-104, 150-210, client-credentials.ts:3-22)

The exposure of the gateway, its TLS material and the client credentials. The
checks that zod and Node.js make themselves are `Formats`.
-/

namespace Qubicl.Core
open Foundation

/- `z.uuid()`, `z.iso.datetime()`, `z.url({ protocol: /^https$/ })`, `isIP`, the
comparison with `new URL(value)` in `HttpsOriginSchema`, and `sha256Text`. -/
structure Formats where
  uuid : String → Bool
  datetime : String → Bool
  httpsUrl : String → Bool
  isIP : String → ℕ
  exactHttpsOrigin : String → Bool
  sha256Text : String → String
  datetime_empty : datetime "" = false

structure Issue where
  path : List String
  message : String
  deriving DecidableEq, Repr

/- `value.length`: characters outside the basic plane count twice. -/
def utf16Length (value : String) : ℕ :=
  (value.toList.map fun c => if c.toNat<0x10000 then 1 else 2).sum

def lengthWithin (min max : ℕ) (value : String) : Bool :=
  decide (min≤utf16Length value) && decide (utf16Length value ≤ max)

def sizeWithin {α : Type} (min max : ℕ) (values : List α) : Bool :=
  decide (min≤values.length) && decide (values.length ≤ max)

def within (min max value : ℕ) : Bool := decide (min≤value) && decide (value ≤ max)

/- `new Set(values).size === values.length` -/
def allUnique {α : Type} [DecidableEq α] (values : List α) : Bool := decide values.Nodup

section Patterns
open Regex

def lower : Regex := range 'a' 'z'
def upper : Regex := range 'A' 'Z'
def digit : Regex := range '0' '9'
def hex : Regex := choice [range 'a' 'f',digit]
def lowerOrDigit : Regex := choice [lower,digit]

/- `/^sha256:[a-f0-9]{64}$/` -/
def sha256 : String → Bool := (seq (text "sha256:") (times 64 hex)).test
/- `/^[a-f0-9]{64}$/` -/
def materialId : String → Bool := (times 64 hex).test
/- `/^[a-z0-9](?:[a-z0-9.-]{0,251}[a-z0-9])?$/u` -/
def dnsHostname : String → Bool :=
  (seq lowerOrDigit
    (maybe (seq (upTo 251 (choice [lowerOrDigit,oneOf ".-"])) lowerOrDigit))).test
/- `/^preview-[a-f0-9-]{36}$/u` -/
def previewLabel : String → Bool := (seq (text "preview-") (times 36 (choice [hex,oneOf "-"]))).test
/- `/^[a-z0-9][a-z0-9-]{0,62}$/u` -/
def clientCredentialId : String → Bool :=
  (seq lowerOrDigit (upTo 62 (choice [lowerOrDigit,oneOf "-"]))).test

end Patterns

/- The parts of a text before and after its last slash. -/
def splitLastSlash (value : String) : List Char × List Char :=
  (((value.toList.reverse.dropWhile (· != '/')).drop 1).reverse,
    (value.toList.reverse.takeWhile (· != '/')).reverse)

variable (z : Formats)

def ipAddress (value : String) : Bool := lengthWithin 2 45 value && z.isIP value != 0

def networkCidr (value : String) : Bool :=
  let (address,prefixText) := splitLastSlash value
  let maximum:=match z.isIP (String.ofList address) with
    | 4 => some 32
    | 6 => some 128
    | _ => none
  lengthWithin 3 49 value && value.toList.contains '/' && !address.isEmpty && !prefixText.isEmpty &&
    prefixText.all Char.isDigit && prefixText == Nat.toDigits 10 (Number.natOfDigits prefixText) &&
    maximum.any fun maximum => decide (Number.natOfDigits prefixText ≤ maximum)

def gatewayHostname (value : String) : Bool :=
  lengthWithin 1 253 value &&
    (z.isIP value != 0 ||
      (dnsHostname value && !(value.toList.splitOn '.').any fun label =>
        label.length > 63 || label.isEmpty || label.head? == some '-' || label.getLast? == some '-'))

def gatewayPreviewDomain (value : String) : Bool := gatewayHostname z value && z.isIP value == 0

def httpsOrigin (value : String) : Bool :=
  z.httpsUrl value && lengthWithin 0 2048 value && z.exactHttpsOrigin value

structure GatewayTlsMaterial where
  id : String
  certificateSha256 : String
  privateKeySha256 : String
  certificateFingerprint256 : String
  certificateNotBefore : String
  certificateNotAfter : String
  clientCertificateAuthoritySha256 : Option String
  deriving DecidableEq, Repr

structure GatewayExposureTlsSecret where
  id : String
  certificateChainPem : String
  privateKeyPem : String
  clientCertificateAuthorityPem : Option String
  deriving DecidableEq, Repr

structure GatewayExposureConfig where
  protocol : String
  bindAddress : String
  port : ℕ
  hostname : String
  allowedNetworks : List String
  trustedOrigins : List String
  previewDomain : Option String
  tls : GatewayTlsMaterial
  deriving DecidableEq, Repr

def gatewayTlsMaterialSchema (value : GatewayTlsMaterial) : Bool :=
  materialId value.id && sha256 value.certificateSha256 && sha256 value.privateKeySha256 &&
    sha256 value.certificateFingerprint256 && z.datetime value.certificateNotBefore &&
    z.datetime value.certificateNotAfter && value.clientCertificateAuthoritySha256.all sha256

def gatewayExposureTlsSecretSchema (value : GatewayExposureTlsSecret) : Bool :=
  materialId value.id && lengthWithin 1 1048576 value.certificateChainPem &&
    lengthWithin 1 262144 value.privateKeyPem &&
    value.clientCertificateAuthorityPem.all (lengthWithin 1 1048576)

def gatewayExposureOrigin (value : GatewayExposureConfig) : String :=
  let hostname:=if z.isIP value.hostname=6 then "[" ++ value.hostname ++ "]" else value.hostname
  "https://" ++ hostname++(if value.port=443 then "" else ":" ++ toString value.port)

def gatewayHostnameIsPreviewRoute (hostname previewDomain : String) : Bool :=
  let suffix := '.' :: previewDomain.toList
  suffix.isSuffixOf hostname.toList &&
    previewLabel (String.ofList (hostname.toList.take (hostname.toList.length - suffix.length)))

def validateGatewayExposure (value : GatewayExposureConfig) : List Issue :=
  (if allUnique value.allowedNetworks then []
    else [⟨["allowedNetworks"],"network allowlist entries must be unique"⟩]) ++
  (if allUnique value.trustedOrigins then []
    else [⟨["trustedOrigins"],"trusted origins must be unique"⟩]) ++
  (if value.trustedOrigins.contains (gatewayExposureOrigin z value) then []
    else [⟨["trustedOrigins"],
      "must include the canonical gateway origin " ++ gatewayExposureOrigin z value⟩]) ++
  (if value.previewDomain=some value.hostname then
    [⟨["previewDomain"],"must differ from the gateway hostname to retain preview-origin isolation"⟩]
    else []) ++
  (if value.previewDomain.any (gatewayHostnameIsPreviewRoute value.hostname) then
    [⟨["hostname"],"must not equal a generated per-computer preview hostname"⟩] else [])

def gatewayExposureConfigSchema (value : GatewayExposureConfig) : Bool :=
  value.protocol == "direct-tls-v1" && ipAddress z value.bindAddress && within 1 65535 value.port &&
    gatewayHostname z value.hostname &&
    sizeWithin 1 64 value.allowedNetworks && value.allowedNetworks.all (networkCidr z) &&
    sizeWithin 1 32 value.trustedOrigins && value.trustedOrigins.all (httpsOrigin z) &&
    value.previewDomain.all (gatewayPreviewDomain z) && gatewayTlsMaterialSchema z value.tls &&
    (validateGatewayExposure z value).isEmpty

def gatewayExposureTlsSecretMatches (exposure : Option GatewayExposureConfig)
    (secret : Option GatewayExposureTlsSecret) : Bool :=
  match exposure, secret with
  | some exposure, some secret =>
    exposure.tls.id == secret.id &&
      exposure.tls.certificateSha256 == z.sha256Text secret.certificateChainPem &&
      exposure.tls.privateKeySha256 == z.sha256Text secret.privateKeyPem &&
      exposure.tls.clientCertificateAuthoritySha256 ==
        secret.clientCertificateAuthorityPem.map z.sha256Text
  | exposure, secret => exposure.isNone && secret.isNone

inductive ClientCredentialScope
  | observe | files | tasks | interactive | publish
  deriving DecidableEq, Repr

structure ClientCredential where
  id : String
  label : String
  token : String
  scopes : List ClientCredentialScope
  createdAt : String
  deriving DecidableEq, Repr

def trimText (value : String) : String := String.ofList (Number.trim value.toList)

theorem trimText_trimText (value : String) : trimText (trimText value)=trimText value := by
  simp [trimText,Number.trim_trim]

def clientCredentialValid (value : ClientCredential) : Bool :=
  clientCredentialId value.id && lengthWithin 1 120 value.label && decide (32≤utf16Length value.token) &&
    sizeWithin 1 5 value.scopes && allUnique value.scopes && z.datetime value.createdAt

def clientCredentialSchema : Schema ClientCredential where
  parse value :=
    let trimmed:={ value with label := trimText value.label }
    if clientCredentialValid z trimmed then some trimmed else none
  stable {x y} h := by
    obtain ⟨hvalid,hy⟩ := Option.ite_none_right_eq_some.1 h
    cases hy
    simp only [trimText_trimText]
    exact if_pos hvalid

end Qubicl.Core
