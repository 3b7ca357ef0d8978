import Qubicl.Core.GatewayAccess

/-!
# The runtime document of an exposure (packages/core/src/gateway-access.ts:116-195)

What the gateway is told of an exposure, with the digests of the files beside the document.
-/

namespace Qubicl.Core
open Foundation

structure GatewayExposureRuntime where
  version : ℕ
  protocol : String
  hostname : String
  port : ℕ
  allowedNetworks : List String
  trustedOrigins : List String
  previewDomain : Option String
  certificateSha256 : String
  privateKeySha256 : String
  certificateFingerprint256 : String
  certificateNotBefore : String
  certificateNotAfter : String
  clientCertificateAuthoritySha256 : Option String
  deriving DecidableEq, Repr

variable (z : Formats)

def validateExposureRuntime (value : GatewayExposureRuntime) : List Issue :=
  if value.previewDomain.any (gatewayHostnameIsPreviewRoute value.hostname) then
    [⟨["hostname"],"must not equal a generated per-computer preview hostname"⟩] else []

/- The schema changes no value. -/
def gatewayExposureRuntimeSchema (value : GatewayExposureRuntime) : Bool :=
  value.version == 1 && value.protocol == "direct-tls-v1" && gatewayHostname z value.hostname &&
    within 1 65535 value.port && sizeWithin 1 64 value.allowedNetworks && value.allowedNetworks.all (networkCidr z) &&
    sizeWithin 1 32 value.trustedOrigins && value.trustedOrigins.all (httpsOrigin z) &&
    value.previewDomain.all (gatewayPreviewDomain z) && sha256 value.certificateSha256 &&
    sha256 value.privateKeySha256 && sha256 value.certificateFingerprint256 && z.datetime value.certificateNotBefore &&
    z.datetime value.certificateNotAfter && value.clientCertificateAuthoritySha256.all sha256 &&
    (validateExposureRuntime value).isEmpty

def gatewayExposureRuntime (value : GatewayExposureConfig) : GatewayExposureRuntime where
  version := 1
  protocol := "direct-tls-v1"
  hostname := value.hostname
  port := value.port
  allowedNetworks := value.allowedNetworks
  trustedOrigins := value.trustedOrigins
  previewDomain := value.previewDomain
  certificateSha256 := value.tls.certificateSha256
  privateKeySha256 := value.tls.privateKeySha256
  certificateFingerprint256 := value.tls.certificateFingerprint256
  certificateNotBefore := value.tls.certificateNotBefore
  certificateNotAfter := value.tls.certificateNotAfter
  clientCertificateAuthoritySha256 := value.tls.clientCertificateAuthoritySha256

theorem gatewayExposureRuntime_valid {value : GatewayExposureConfig}
    (h : gatewayExposureConfigSchema z value=true) :
    gatewayExposureRuntimeSchema z (gatewayExposureRuntime value)=true := by
  simp only [gatewayExposureConfigSchema,gatewayTlsMaterialSchema,Bool.and_eq_true] at h
  obtain ⟨⟨⟨⟨⟨⟨⟨⟨⟨⟨hpro,hbin⟩,hpor⟩,hhos⟩,hsiz⟩,hnet⟩,hcou⟩,hori⟩,hdom⟩,htls⟩,hval⟩ := h
  obtain ⟨⟨⟨⟨⟨⟨hid,hcer⟩,hkey⟩,hfin⟩,hbef⟩,haft⟩,haut⟩ := htls
  have hiss : (validateExposureRuntime (gatewayExposureRuntime value)).isEmpty=true := by
    unfold validateExposureRuntime
    split
    next hrou =>
      have hany : value.previewDomain.any (gatewayHostnameIsPreviewRoute value.hostname)=true := hrou
      unfold validateGatewayExposure at hval
      rw [if_pos hany] at hval
      simp at hval
    next => rfl
  unfold gatewayExposureRuntimeSchema gatewayExposureRuntime
  simp only [Bool.and_eq_true]
  exact ⟨⟨⟨⟨⟨⟨⟨⟨⟨⟨⟨⟨⟨⟨⟨rfl,rfl⟩,hhos⟩,hpor⟩,hsiz⟩,hnet⟩,hcou⟩,hori⟩,hdom⟩,hcer⟩,hkey⟩,
    hfin⟩,hbef⟩,haft⟩,haut⟩,hiss⟩

/- Of a canonical computer ID; `previewHostname` is that of the domain `localhost`. -/
def gatewayPreviewHostname (computerId previewDomain : String) : String := "preview-" ++ computerId ++ "." ++ previewDomain

end Qubicl.Core
