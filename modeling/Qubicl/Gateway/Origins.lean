import Qubicl.Core.ExposureRuntime
import Qubicl.Gateway.Headers

/-!
# Admission and origins (packages/gateway/src/server.ts:264-512, 660-672, 799-892, 1369-1447, 1610-1639)

What becomes of an HTTP request and of an upgrade, on either surface. Parsing URLs and addresses
is Node.js's; what the credentials, sessions and counters say at that moment is given.
-/

namespace Qubicl.Gateway
open Foundation Core Viewing

/- `text.startsWith(start)` -/
def begins (text start : String) : Bool := start.toList.isPrefixOf text.toList

inductive PeerAddress
  | v4 (value : BitVec 32)
  | v6 (value : BitVec 128)
  deriving DecidableEq, Repr

namespace PeerAddress

/- `::ffff:a.b.c.d` -/
def mappedValue (value : BitVec 32) : ℕ := 0xffff*2 ^ 32+value.toNat

def place : PeerAddress → ℕ
  | v4 value => mappedValue value
  | v6 value => value.toNat

/-- An IPv4-mapped address is its IPv4 address. -/
def canonical : PeerAddress → PeerAddress
  | v4 value => v4 value
  | v6 value => if value.toNat / 2 ^ 32=0xffff then v4 (BitVec.ofNat 32 value.toNat) else v6 value

end PeerAddress

/- `BlockList.addSubnet` and `check`: IPv4 addresses and networks are compared as mapped ones. -/
structure Subnet where
  address : PeerAddress
  bits : ℕ
  deriving DecidableEq, Repr

def Subnet.ignored (s : Subnet) : ℕ :=
  match s.address with
  | .v4 _ => 32 - s.bits
  | .v6 _ => 128 - s.bits

def Subnet.contains (s : Subnet) (peer : PeerAddress) : Bool :=
  s.address.place / 2 ^ s.ignored == peer.place / 2 ^ s.ignored

def exposureOrigin (z : Formats) (hostname : String) (port : ℕ) : String :=
  "https://" ++ (if z.isIP hostname=6 then "[" ++ hostname ++ "]" else hostname) ++
    (if port=443 then "" else ":" ++ toString port)

/- `[a-z0-9.-]` -/
def dnsChar (c : Char) : Bool := ('a' ≤ c && c ≤ 'z') || ('0' ≤ c && c ≤ '9') || c == '.' || c == '-'

/- `[0-9a-fA-F:]` -/
def addressChar (c : Char) : Bool := c.isDigit || ('a' ≤ c.toLower && c.toLower ≤ 'f') || c == ':'

/-- What Node.js reads: URLs, and the addresses of `isIP`. A quad after `::ffff:`, in either case, is
the mapped address. The host of an origin stays as it is, unless it is an address or a number, which
becomes an address. -/
structure Node (z : Formats) where
  target : String → Option (String × String)
  hostname : String → Option String
  host : String → Option String
  address : String → Option PeerAddress
  rooted : ∀ url pathname search, target url=some (pathname,search) → begins pathname "/" = true
  isIP : ∀ text, z.isIP text=match address text with
    | none => 0
    | some (.v4 _) => 4
    | some (.v6 _) => 6
  address_head : ∀ text value, address text=some value → ∃ c ∈ text.toList.head?, addressChar c=true
  mapped : ∀ quad value, address quad=some (.v4 value) → ∀ pre : List Char, pre.map Char.toLower = "::ffff:".toList →
    (address (String.ofList (pre++quad.toList))).map PeerAddress.place=some (PeerAddress.mappedValue value)
  hostname_of_host : ∀ name port authority received, z.isIP name≠0 ∨ (∀ c ∈ name.toList, dnsChar c=true) →
    host (exposureOrigin z name port)=some authority → lowerCase received=lowerCase authority →
    ∃ actual, hostname received=some actual ∧ (lowerCase actual=lowerCase name ∨
      (∃ c ∈ name.toList.head?, addressChar c=true) ∧ ∃ c ∈ actual.toList.head?, c.isDigit=true ∨ c = '[')

section Networks
variable {z : Formats} (node : Node z)
open Regex

/- `/^\d{1,3}(?:\.\d{1,3}){3}$/` -/
def quad : String → Bool :=
  let number:=seq digit (upTo 2 digit)
  (seq number (times 3 (seq (text ".") number))).test

/- The quad of `/^::ffff:(…)$/iu`. -/
def mappedQuad (value : String) : Option String :=
  let pre:=value.toList.take "::ffff:".length
  let rest:=String.ofList (value.toList.drop "::ffff:".length)
  if pre.map Char.toLower = "::ffff:".toList && quad rest then some rest else none

def withoutZone (value : String) : String := String.ofList (value.toList.takeWhile (· ≠ '%'))

def normalizedPeerAddress (value : String) : Option PeerAddress :=
  if value = "" then none
  else match (mappedQuad (withoutZone value)).bind node.address with
    | some (.v4 address) => some (.v4 address)
    | _ => node.address (withoutZone value)

def subnets (networks : List String) : List Subnet :=
  networks.filterMap fun network =>
    let (address,bits) := splitLastSlash network
    (node.address (String.ofList address)).map fun address => ⟨address,Number.natOfDigits bits⟩

/- `GatewayNetworkAllowlist.allows` -/
def networksAllow (networks : List String) (value : Option String) : Bool :=
  match value.bind (normalizedPeerAddress node) with
  | none => false
  | some peer => (subnets node networks).any (·.contains peer)

end Networks

structure Arrival extends IncomingMessage where
  url : String
  remoteAddress : Option String
  encrypted : Bool
  servername : Option String

inductive RequestSurface (z : Formats)
  | localhost
  | external (runtime : GatewayExposureRuntime) (valid : gatewayExposureRuntimeSchema z runtime=true)

def idLength : ℕ := 36

/- `[0-9a-fA-F-]` -/
def uuidChar (c : Char) : Bool := c.isDigit || ('a' ≤ c.toLower && c.toLower ≤ 'f') || c == '-'

/-- The IDs of the routes are UUIDs. -/
structure RouteTable where
  routes : List ProxyRoute
  ids : ∀ route ∈ routes, route.id.toList.length=idLength ∧ ∀ c ∈ route.id.toList, uuidChar c=true

def RouteTable.get (table : RouteTable) (id : String) : Option ProxyRoute := table.routes.find? (·.id == id)

/- `[a-f0-9-]` -/
def idChar (c : Char) : Bool := ('a' ≤ c && c ≤ 'f') || ('0' ≤ c && c ≤ '9') || c == '-'
/- `[a-f0-9]` -/
def hexChar (c : Char) : Bool := ('a' ≤ c && c ≤ 'f') || ('0' ≤ c && c ≤ '9')

/- `^\/computers\/([a-f0-9-]+)`, the ID and what follows it. -/
def computerPath (pathname : String) : Option (String × String) :=
  let rest:=pathname.toList.drop "/computers/".length
  let id:=rest.takeWhile idChar
  if begins pathname "/computers/" && !id.isEmpty then
    some (String.ofList id,String.ofList (rest.dropWhile idChar))
  else none

/- `(\/.*)?$` -/
def computerRoute (pathname : String) : Option (String × String) :=
  match computerPath pathname with
  | some (id,rest) =>
    if rest = "" then some (id,"/") else if begins rest "/" then some (id,rest) else none
  | none => none

/- `\/previews(?:\/|$)` -/
def previewPath (pathname : String) : Option String :=
  match computerPath pathname with
  | some (id,rest) => if rest = "/previews" || begins rest "/previews/" then some id else none
  | none => none

section Hosts
variable {z : Formats} (node : Node z) (request : Arrival)

def requestHost : Option String := (request.header "host").bind node.hostname

def canonicalId (id : String) : Bool := id.toList.length == idLength && id.toList.all idChar

/- The domain of the previews of a surface. -/
def RequestSurface.previewDomain : RequestSurface z → Option String
  | localhost => some "localhost"
  | external runtime _ => runtime.previewDomain

def isPreviewRequestHost (id : String) (surface : RequestSurface z) : Bool :=
  match (requestHost node request).map lowerCase with
  | none => false
  | some actual => surface.previewDomain.any fun domain => actual == gatewayPreviewHostname id domain

/- `/^([a-f0-9]{16})--preview-([a-f0-9-]{36})$/` -/
def publicationLabel (label : List Char) : Option (String × String) :=
  let publication:=label.take 16
  let computer:=(label.drop 16).drop "--preview-".length
  if publication.length == 16 && publication.all hexChar &&
      (label.drop 16).take "--preview-".length == "--preview-".toList &&
      computer.length == idLength && computer.all idChar then
    some (String.ofList publication,String.ofList computer)
  else none

def publicationPreviewIdentity (actual : String) (previewDomain : Option String) : Option (String × String) :=
  match previewDomain with
  | none => none
  | some domain =>
    let suffix := '.' :: domain.toList
    if suffix.isSuffixOf actual.toList then
      publicationLabel (actual.toList.take (actual.toList.length - suffix.length))
    else none

/- The publication and its computer. -/
def publicationPreviewRequest (surface : RequestSurface z) : Option (String × String) :=
  match (requestHost node request).map lowerCase with
  | none => none
  | some actual => publicationPreviewIdentity actual surface.previewDomain

def rawHeaderCount (name : String) : ℕ := (request.rawHeaders.filter fun raw => lowerCase raw.1 == name).length

def expectedHostname (pathname : String) (runtime : GatewayExposureRuntime) : Option String :=
  if (publicationPreviewIdentity ((requestHost node request).map lowerCase |>.getD "") runtime.previewDomain).isSome then
    requestHost node request
  else match previewPath pathname with
    | some id => runtime.previewDomain.map (gatewayPreviewHostname id)
    | none => some runtime.hostname

def validExternalRequestAuthority (pathname : String) (runtime : GatewayExposureRuntime) : Bool :=
  if (previewPath pathname).any fun id => !canonicalId id then false
  else match expectedHostname node request pathname runtime with
    | none => false
    | some expected =>
      match node.host (exposureOrigin z expected runtime.port), request.header "host" with
      | some authority, some received =>
        rawHeaderCount request "host" == 1 && lowerCase received == lowerCase authority && request.encrypted &&
          (let servername := request.servername.map lowerCase
          if z.isIP expected≠0 then servername == none || servername == some expected
          else servername == some expected)
      | _, _ => false

end Hosts

/-- What becomes of a request. An answer of the gateway for a computer is one after its route was
chosen, on the origin of its previews or not. -/
inductive Outcome
  | refused (status : ℕ)
  | proxied (id : String) (view : Bool) (target : String)
  | answered (id : String) (preview : Bool)
  deriving DecidableEq, Repr

/- What the state of the gateway, and the headers that are compared with it, say at that moment;
`entitled` is what a control transition, and the connection of a viewer, check once more. -/
structure Checks where
  rate : Bool
  bodyTooLarge : Bool
  requestOrigin : Bool
  previewOrigin : Bool
  viewerOrigin : Bool
  browserOrigin : Bool
  busy : Bool
  bearer : Bool
  session : Bool
  operator : Bool
  aborted : Bool
  present : Bool
  entitled : Bool

section Routing
variable {z : Formats} (node : Node z) (table : RouteTable) (checks : Checks) (surface : RequestSurface z)
  (request : Arrival)

def RequestSurface.isExternal {z : Formats} : RequestSurface z → Bool
  | localhost => false
  | external _ _ => true

def networkAllowed : Bool :=
  match surface with
  | .localhost => true
  | .external runtime _ => networksAllow node runtime.allowedNetworks request.remoteAddress

def authorityValid (pathname : String) : Bool :=
  match surface with
  | .localhost => true
  | .external runtime _ => validExternalRequestAuthority node request pathname runtime

def proxy (route : ProxyRoute) (target : String) (view preview : Bool) : Outcome :=
  if (view && route.viewPort.isNone) || checks.busy then .answered route.id preview
  else .proxied route.id view target

/- `suffix === '/view-ticket' || …` -/
def viewerRequest (suffix : String) : Bool :=
  suffix == "/view-ticket" || suffix == "/view" || begins suffix "/view/" || suffix == "/human-control/take" ||
    suffix == "/human-control/release"

def openTerminal (suffix : String) : Bool := suffix == "/open-terminal" || begins suffix "/open-terminal/"

def browserOpenApiRequest (suffix : String) : Bool :=
  suffix == "/openapi.json" || begins suffix "/v1/tools/" || openTerminal suffix

def managementRoutes : List String :=
  ["GET /operator/management/status","GET /operator/management/processes","GET /operator/management/previews",
    "POST /operator/management/processes/stop","POST /operator/management/processes/stop-all",
    "POST /operator/management/previews/revoke","POST /operator/management/previews/share",
    "POST /operator/management/previews/unshare","POST /operator/management/previews/open"]

def transition (route : ProxyRoute) (authorized : Bool) (target : String) : Outcome :=
  if checks.aborted || !checks.present || !authorized then .answered route.id false
  else proxy checks route target false false

def computerRequest (route : ProxyRoute) (suffix search : String) : Outcome :=
  let answered:=Outcome.answered route.id false
  if viewerRequest suffix && !hasViewer route.toRuntimeRoute then answered
  else if browserOpenApiRequest suffix && (request.headers.lookup "origin").isSome &&
      (!checks.browserOrigin || request.method == "OPTIONS") then answered
  else if request.method == "GET" && suffix == "/health" then
    if surface.isExternal && !checks.bearer then answered else proxy checks route "/health" false false
  else if request.method == "POST" && suffix == "/view-ticket" then answered
  else if request.method == "GET" && suffix == "/view" then answered
  else if suffix == "/view/" && request.method == "GET" then answered
  else if suffix == "/view/actions" && request.method == "GET" then
    if !checks.session then answered else proxy checks route ("/_qubicl/view/actions" ++ search) false false
  else if begins suffix "/view/" then
    if !checks.session then answered
    else proxy checks route (String.ofList (suffix.toList.drop "/view".length)++search) true false
  else if suffix == "/human-control/status" && request.method == "GET" then answered
  else if (suffix == "/human-control/take" || suffix == "/human-control/release") && request.method == "POST" then
    if !checks.viewerOrigin || !checks.session then answered
    else transition checks route checks.entitled
      (if suffix == "/human-control/take" then "/_qubicl/human/take" else "/_qubicl/human/release")
  else if surface.isExternal && begins suffix "/operator/" then answered
  else if request.method == "POST" && suffix == "/operator/policy/reload" then
    if !checks.operator then answered else proxy checks route "/_qubicl/operator/policy/reload" false false
  else if begins suffix "/operator/management/" then
    if !checks.operator then answered
    else if managementRoutes.contains (request.method ++ " " ++ suffix) then
      proxy checks route ("/_qubicl" ++ suffix) false false
    else answered
  else if request.method == "POST" && suffix == "/operator/human-control/release" then
    if !checks.operator then answered else transition checks route checks.operator "/_qubicl/human/release"
  else if !checks.bearer then answered
  else if suffix == "/mcp" || browserOpenApiRequest suffix then proxy checks route (suffix++search) false false
  else answered

def publicationRequest (identity : String × String) (pathname search : String) : Outcome :=
  match table.get identity.2 with
  | none => .refused 404
  | some route =>
    if (request.headers.lookup "origin").isSome && !checks.requestOrigin then .answered route.id true
    else proxy checks route ("/_qubicl/previews/" ++ identity.1++pathname++search) false true

/-- `Gateway.handle` -/
def handle : Outcome :=
  if !networkAllowed node surface request then .refused 403
  else if surface.isExternal && !checks.rate then .refused 429
  else match node.target request.url with
    | none => .refused 400
    | some (pathname,search) =>
      if !authorityValid node surface request pathname then .refused 421
      else if surface.isExternal && checks.bodyTooLarge then .refused 413
      else match publicationPreviewRequest node request surface with
        | some identity => publicationRequest table checks request identity pathname search
        | none =>
          if pathname = "/health" then .refused 200
          else match computerRoute pathname with
            | none => .refused 404
            | some (id,suffix) =>
              match table.get id with
              | none => .refused 404
              | some route =>
                if isPreviewRequestHost node request id surface != begins suffix "/previews/" then .refused 403
                else if begins suffix "/previews/" then
                  proxy checks route ("/_qubicl" ++ suffix++search) false true
                else computerRequest checks surface request route suffix search

def viewerUpgrade (route : ProxyRoute) (search : String) : Outcome :=
  if !hasViewer route.toRuntimeRoute || !checks.viewerOrigin || !checks.session || checks.aborted ||
      !checks.present || !checks.entitled then .answered route.id false
  else .proxied route.id true ("/websockify" ++ search)

/-- `Gateway.upgrade`, whose relays do not count as requests. -/
def upgrade : Outcome :=
  let relay:={ checks with busy := false }
  if !networkAllowed node surface request then .refused 403
  else if surface.isExternal && !checks.rate then .refused 429
  else match node.target request.url with
    | none => .refused 400
    | some (pathname,search) =>
      if !authorityValid node surface request pathname then .refused 421
      else match publicationPreviewRequest node request surface with
        | some identity => publicationRequest table relay request identity pathname search
        | none =>
          match computerPath pathname with
          | none => .refused 404
          | some (id,rest) =>
            if begins rest "/previews/" then
              match table.get id with
              | none => .refused 404
              | some route =>
                if !isPreviewRequestHost node request id surface then .refused 403
                else if (request.headers.lookup "origin").isSome && !checks.previewOrigin then .answered route.id true
                else proxy relay route ("/_qubicl" ++ rest++search) false true
            else if rest = "/view/websockify" then
              match table.get id with
              | none => .refused 401
              | some route =>
                if isPreviewRequestHost node request id surface then .refused 403
                else viewerUpgrade checks route search
            else .refused 404

end Routing

end Qubicl.Gateway
