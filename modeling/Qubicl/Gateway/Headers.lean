import Qubicl.Gateway.Tickets

/-!
# Request headers (packages/gateway/src/server.ts:686-719, 811-944, 1495-1567)

What the gateway passes on of a client's headers: `proxy` from the object that Node.js makes
of them, the relays of an upgrade from the raw list, line by line.
-/

namespace Qubicl.Gateway
open Foundation Core Viewing List

def lowerCase (name : String) : String := name.map Char.toLower

theorem lowerCase_eq_self {name : String} : lowerCase name=name ↔ ∀ c ∈ name.toList, c.toLower=c := by
  unfold lowerCase
  rw [← String.toList_inj,String.toList_map]
  constructor
  · intro h c hc
    have hmap : name.toList.map Char.toLower=name.toList.map id := by rw [h,map_id]
    exact map_inj_left.1 hmap c hc
  · intro h
    conv => rhs; rw [← map_id name.toList]
    exact map_congr_left h

theorem eq_of_toLower {c d : Char} (hd : ¬ (d.val ≥ 'a'.val ∧ d.val ≤ 'z'.val)) (h : c.toLower=d) : c=d := by
  by_cases hupp : c.val ≥ 'A'.val ∧ c.val ≤ 'Z'.val
  · have hlow : c.toLower.val=c.val+('a'.val - 'A'.val) := by
      unfold Char.toLower
      rw [dif_pos hupp]
    rw [h] at hlow
    grind
  · rw [← h]
    exact (dif_neg hupp : c.toLower=c).symm

theorem toLower_toLower (c : Char) : c.toLower.toLower=c.toLower := by
  have hkep : ∀ d : Char, ¬ (d.val ≥ 'A'.val ∧ d.val ≤ 'Z'.val) → d.toLower=d := fun d hd => dif_neg hd
  by_cases h : c.val ≥ 'A'.val ∧ c.val ≤ 'Z'.val
  · refine hkep _ ?_
    have hlow : c.toLower.val=c.val+('a'.val - 'A'.val) := by
      unfold Char.toLower
      rw [dif_pos h]
    rw [hlow]
    grind
  · rw [hkep c h,hkep c h]

theorem lowerCase_lowerCase (name : String) : lowerCase (lowerCase name)=lowerCase name := by
  refine lowerCase_eq_self.2 fun c hc => ?_
  simp only [lowerCase,String.toList_map,mem_map] at hc
  obtain ⟨d,-,rfl⟩ := hc
  exact toLower_toLower d

/- The characters of a token: no controls, no blanks, none of the delimiters. -/
def tokenChar (c : Char) : Bool :=
  decide (33≤c.toNat) && decide (c.toNat≤126) && !("(),/:;<=>?@[]".toList.contains c) &&
    !([34,92,123,125].contains c.toNat)

def valueChar (c : Char) : Bool := c.toNat≠0 && c.toNat≠10 && c.toNat≠13

def rawValues (rawHeaders : List (String × String)) (name : String) : List String :=
  (rawHeaders.filter fun raw => lowerCase raw.1 == name).map Prod.snd

/-- A request as the parser of Node.js delivers it: `headers` has an entry for each name, in lower
case, which is a text or, as for `set-cookie`, an array of texts. -/
structure IncomingMessage where
  method : String
  httpVersion : String
  rawHeaders : List (String × String)
  headers : List (String × List String)
  named : ∀ raw ∈ rawHeaders, raw.1 ≠ "" ∧ ∀ c ∈ raw.1.toList, tokenChar c=true
  clean : ∀ raw ∈ rawHeaders, ∀ c ∈ raw.2.toList, valueChar c=true
  merged : ∀ name, name ∈ headers.map Prod.fst ↔ ∃ raw ∈ rawHeaders, lowerCase raw.1=name
  filled : ∀ header ∈ headers, header.2≠[] ∧ ∀ value ∈ header.2, ∀ c ∈ value.toList, valueChar c=true
  connection : headers.lookup "connection" =
    if rawValues rawHeaders "connection" = [] then none
    else some [", ".intercalate (rawValues rawHeaders "connection")]

/- `typeof headers[name] === 'string'` -/
def IncomingMessage.header (request : IncomingMessage) (name : String) : Option String :=
  match request.headers.lookup name with
  | some [value] => some value
  | _ => none

inductive Surface
  | localhost
  | external
  deriving DecidableEq, Repr

def Surface.kind : Surface → String
  | localhost => "local"
  | external => "external"

def Surface.protocol : Surface → String
  | localhost => "http"
  | external => "https"

structure ProxyRoute extends RuntimeRoute where
  id : String
  controlPort : ℕ

def viewerKeyHeader : String := "x-qubicl-viewer-key"
def viewerAuthenticationHeaderV1 : String := "header-v1"

def hopByHopHeaders : List String :=
  ["connection","keep-alive","proxy-authenticate","proxy-authorization","te","trailer","transfer-encoding",
    "upgrade"]

def protectedRequestHeaders : List String :=
  ["authorization","cookie","host","forwarded","via","cf-connecting-ip","true-client-ip","x-client-ip",
    "x-real-ip","x-qubicl-internal-key","x-qubicl-gateway-epoch","x-qubicl-operator-key",viewerKeyHeader]

/- The tokens of a list that is separated by commas, trimmed, in lower case and without the empty ones. -/
def commaTokens (cs : List Char) : List String :=
  (((cs.splitOn ',').map fun token => (Number.trim token).map Char.toLower).filter (· ≠ [])).map String.ofList

def connectionHeaderTokens (request : IncomingMessage) : List String :=
  let values:=(request.headers.lookup "connection").getD []
  commaTokens (",".intercalate values).toList

def stripForwardedHeader (name : String) (connectionTokens : List String) (preserveCookie : Bool) : Bool :=
  let normalized:=lowerCase name
  if preserveCookie && normalized == "cookie" then false
  else hopByHopHeaders.contains normalized || protectedRequestHeaders.contains normalized ||
    connectionTokens.contains normalized || normalized.startsWith "x-forwarded-" || normalized.startsWith "x-qubicl-"

def sanitizedProxyHeaders (request : IncomingMessage) (preserveCookie : Bool) : List (String × List String) :=
  request.headers.filter fun header =>
    !stripForwardedHeader header.1 (connectionHeaderTokens request) preserveCookie

/- The name and the value of each line. -/
def sanitizedUpgradeHeaders (request : IncomingMessage) (preserveCookie : Bool) : List (String × String) :=
  request.rawHeaders.filter fun raw => !stripForwardedHeader raw.1 (connectionHeaderTokens request) preserveCookie

def headerLine (header : String × String) : String := header.1 ++ ": " ++ header.2

def sanitizedUpgradeHeaderLines (request : IncomingMessage) (preserveCookie : Bool) : List String :=
  (sanitizedUpgradeHeaders request preserveCookie).map headerLine

/- `result[name] = value` -/
def assign (headers : List (String × List String)) (header : String × String) : List (String × List String) :=
  if headers.any (·.1 == header.1) then
    headers.map fun old => if old.1 == header.1 then (header.1,[header.2]) else old
  else headers++[(header.1,[header.2])]

/- What an object of headers sends, an entry for each value. -/
def sent (headers : List (String × List String)) : List (String × String) :=
  headers.flatMap fun header => header.2.map fun value => (header.1,value)

/- What a request is passed on with: `hostHeader` is the `Host` that Node.js makes of a name and a
port, and `serviceKey` is `deriveInternalServiceKey(_, 'viewer')`. -/
structure Forwarding where
  gatewayEpoch : String
  route : ProxyRoute
  surface : Surface
  client : Option RuntimeClientCredential
  scopeText : ClientCredentialScope → String
  serviceKey : String → String
  hostHeader : String → ℕ → String

namespace Forwarding
variable (forwarding : Forwarding) (request : IncomingMessage)

def viewHost : String := forwarding.route.viewHost.getD forwarding.route.host

def previewSettings : List (String × String) :=
  ((request.header "authorization").map fun value => ("x-qubicl-preview-authorization",value)).toList ++
    match request.header "host" with
    | some host => [("x-qubicl-preview-host",host),("x-qubicl-preview-proto",forwarding.surface.protocol)]
    | none => []

def clientSettings : List (String × String) :=
  match forwarding.client with
  | some client => [("x-qubicl-client-id",client.id),("x-qubicl-client-label",client.label),
      ("x-qubicl-client-scopes",",".intercalate (client.scopes.map forwarding.scopeText))]
  | none => []

def serviceSettings : List (String × String) :=
  [("x-qubicl-internal-key",forwarding.route.internalKey),("x-qubicl-gateway-epoch",forwarding.gatewayEpoch),
    ("x-qubicl-access-surface",forwarding.surface.kind)]

def viewerSettings : List (String × String) :=
  if forwarding.route.viewerAuthentication=some viewerAuthenticationHeaderV1 then
    [(viewerKeyHeader,forwarding.serviceKey forwarding.route.internalKey)]
  else []

/-- What `proxy` sets in the object, in its order. -/
def proxySettings (previewProxy view : Bool) : List (String × String) :=
  (if previewProxy then forwarding.previewSettings request else []) ++
    if view then forwarding.viewerSettings else forwarding.serviceSettings++forwarding.clientSettings

def proxyObject (previewProxy view : Bool) : List (String × List String) :=
  (forwarding.proxySettings request previewProxy view).foldl assign (sanitizedProxyHeaders request previewProxy)

/- What Node.js adds: the object has neither, and without an agent the connection is not kept. The
framing of the body, which it decides itself, is left out. -/
def nodeHeaders (view : Bool) : List (String × String) :=
  let hostname:=if view then forwarding.viewHost else forwarding.route.host
  let port:=if view then forwarding.route.viewPort.getD 0 else forwarding.route.controlPort
  [("Host",forwarding.hostHeader hostname port),("Connection","close")]

/-- The headers that reach the computer through `proxy`. -/
def proxyHeaders (previewProxy view : Bool) : List (String × String) :=
  sent (forwarding.proxyObject request previewProxy view)++forwarding.nodeHeaders view

/- The lines of a relay to a host and a port. -/
def relaySettings (host : String) (port : ℕ) : List (String × String) :=
  [("Host",s!"{host}:{port}"),("Connection","Upgrade"),("Upgrade","websocket")]

/- Of the two relays to a preview, which set the same headers. -/
def previewRelaySettings : List (String × String) :=
  relaySettings forwarding.route.host forwarding.route.controlPort ++
    [("X-Qubicl-Internal-Key",forwarding.route.internalKey),("X-Qubicl-Gateway-Epoch",forwarding.gatewayEpoch),
      ("X-Qubicl-Access-Surface",forwarding.surface.kind)] ++
    ((request.header "host").map fun host => ("X-Qubicl-Preview-Host",host)).toList ++
    [("X-Qubicl-Preview-Proto",forwarding.surface.protocol)] ++
    ((request.header "authorization").map fun value => ("X-Qubicl-Preview-Authorization",value)).toList

def viewerRelaySettings (viewPort : ℕ) : List (String × String) :=
  relaySettings forwarding.viewHost viewPort ++
    if forwarding.route.viewerAuthentication=some viewerAuthenticationHeaderV1 then
      [("X-Qubicl-Viewer-Key",forwarding.serviceKey forwarding.route.internalKey)]
    else []

/-- The lines of a relay between the request line and the blank one. -/
def previewRelayLines : List String :=
  sanitizedUpgradeHeaderLines request true++(forwarding.previewRelaySettings request).map headerLine

def viewerRelayLines (viewPort : ℕ) : List String :=
  sanitizedUpgradeHeaderLines request false++(forwarding.viewerRelaySettings viewPort).map headerLine

end Forwarding

def readHeaderLine (line : String) : String × String :=
  (String.ofList (line.toList.takeWhile (· ≠ ':')),String.ofList ((line.toList.dropWhile (· ≠ ':')).drop 2))

end Qubicl.Gateway
