import PicHost.Api.State
import PicHost.Lib.IpAddress

/-!
# Upload by URL

The download behind `upload-url`, against resolvers and servers that answer as they like.
-/

namespace PicHost.UploadUrl

open IpAddress

def maxRedirects : ℕ := 5

def maxBodySize : ℕ := 52428800

def err (key : String) (args : List String) : ApiError := { status := 400, key, args }

/-- `is_private_ip`. -/
def isPrivateIp (x : Ipv4) : Bool :=
  x.a = 0 ||
  x.a = 10 ||
  x.a = 127 ||
  (x.a = 169 && x.b = 254) ||
  (x.a = 172 && 16 ≤ x.b && x.b ≤ 31) ||
  (x.a = 192 && x.b = 168) ||
  (224 ≤ x.a && x.a ≤ 239) ||
  (x.a = 255 && x.b = 255 && x.c = 255 && x.d = 255) ||
  (x.a = 100 && 64 ≤ x.b && x.b ≤ 127) ||
  (x.a = 192 && x.b = 0 && x.c = 0) ||
  (x.a = 192 && x.b = 0 && x.c = 2) ||
  (x.a = 198 && x.b = 51 && x.c = 100) ||
  (x.a = 203 && x.b = 0 && x.c = 113) ||
  (x.a = 198 && 18 ≤ x.b && x.b ≤ 19)

/-- What `resolve_and_check_host` blocks. -/
def isBlocked : IpAddr → Bool
  | .v4 x => isPrivateIp x
  | .v6 x =>
    x = ⟨0, 0, 0, 0, 0, 0, 0, 1⟩ ||
    x.s0 &&& 0xff00 = 0xff00 ||
    x = ⟨0, 0, 0, 0, 0, 0, 0, 0⟩ ||
    x.s0 &&& 0xfe00 = 0xfc00 ||
    x.s0 &&& 0xffc0 = 0xfe80

inductive Host
  | domain (name : String)
  | address (ip : IpAddr)

structure Url where
  scheme : String
  host : Option Host
  pathSegments : Option (List String)

def loopbackUrl : Url := ⟨"http", some (.address (.v4 ⟨127, 0, 0, 1⟩)), some [""]⟩

/-- The libraries the download uses. A `Location` that is an absolute URL is taken as it is. -/
structure Libraries where
  parse : String → Except String Url
  join : Url → String → Option Url
  canonicalReason : ℕ → Option String
  isImage : List UInt8 → Bool
  join_loopback : ∀ base, join base "http://127.0.0.1/" = some loopbackUrl

/-- Why `send` fails. -/
inductive SendError
  | timeout
  | connect (message : String)
  | redirect
  | other (message : String)

structure Response where
  status : ℕ
  location : Option String
  contentLength : Option ℕ
  body : Except String (List UInt8)

/-- Resolver and servers. Resolution `0` is the one of the check, `hop + 1` the one of a
connection, to one of the addresses it gave. -/
structure Network where
  client : Except String Unit
  resolve : ℕ → String → Except String (List IpAddr)
  dial : ℕ → List IpAddr → Except String IpAddr
  respond : ℕ → Except SendError Response
  dial_mem : ∀ hop ips ip, dial hop ips = .ok ip → ip ∈ ips

variable (lib : Libraries) (net : Network)

def resolveHost (call : ℕ) : Host → Except String (List IpAddr)
  | .domain name => net.resolve call name
  | .address ip => .ok [ip]

def allowedScheme (scheme : String) : Bool := scheme = "http" || scheme = "https"

def validateUrlScheme (url : String) : Except ApiError Url :=
  match lib.parse url with
  | .error e => .error (err "url.invalid" [e])
  | .ok parsed =>
    if allowedScheme parsed.scheme then .ok parsed
    else .error (err "url.unsupported_scheme" [parsed.scheme])

/-- `extract_filename_from_url_str`. -/
def extractFilename (url : Url) : String :=
  ((url.pathSegments.bind List.getLast?).filter (· ≠ "")).getD "image"

def resolveAndCheckHost (host : Host) : Except ApiError Unit :=
  match resolveHost net 0 host with
  | .error e => .error (err "url.resolve_failed" [e])
  | .ok [] => .error (err "url.no_addresses" [])
  | .ok addrs => if addrs.any isBlocked then .error (err "url.ssrf_blocked" []) else .ok ()

/-- One request of the client, and where it connects to. -/
def request (hop : ℕ) (url : Url) : List IpAddr × Except SendError Response :=
  if allowedScheme url.scheme then
    match url.host with
    | none => ([], .error (.other "no host"))
    | some host =>
      match (resolveHost net (hop + 1) host).bind (net.dial hop) with
      | .error e => ([], .error (.connect e))
      | .ok ip => ([ip], net.respond hop)
  else ([], .error (.other "URL scheme is not allowed"))

/-- Where a response redirects to. -/
def redirectTarget (url : Url) (r : Response) : Option Url :=
  if r.status ∈ [301, 302, 303, 307, 308] then r.location.bind (lib.join url) else none

/-- `client.get(url).send()` under `Policy::limited`, with so many redirects left. -/
def send (left hop : ℕ) (url : Url) : List IpAddr × Except SendError Response :=
  let first := request net hop url
  match left, first.2.toOption.bind (redirectTarget lib url) with
  | _, none => first
  | 0, some _ => (first.1, .error .redirect)
  | left + 1, some target =>
    let rest := send left (hop + 1) target
    (first.1 ++ rest.1, rest.2)

def sendFailed : SendError → ApiError
  | .timeout => err "url.timed_out" []
  | .connect message => err "url.connect_failed" [message]
  | .redirect => err "url.too_many_redirects" []
  | .other message => err "url.download_failed" [message]

/-- What `fetch_remote_body` makes of the response. -/
def checkResponse (r : Response) : Except ApiError (List UInt8) :=
  if ¬ (200 ≤ r.status ∧ r.status < 300) then
    .error (err "url.server_error"
      [toString r.status, (lib.canonicalReason r.status).getD "unknown"])
  else if maxBodySize < r.contentLength.getD 0 then
    .error (err "url.too_large" [toString (r.contentLength.getD 0)])
  else
    match r.body with
    | .error e => .error (err "url.body_failed" [e])
    | .ok bytes =>
      if maxBodySize < bytes.length then .error (err "url.too_large" [toString bytes.length])
      else if lib.isImage bytes then .ok bytes
      else .error (err "url.not_an_image" [])

def fetchRemoteBody (url : Url) : List IpAddr × Except ApiError (List UInt8) :=
  let sent := send lib net maxRedirects 0 url
  (sent.1,
    match sent.2 with
    | .error e => .error (sendFailed e)
    | .ok r => checkResponse lib r)

/-- The addresses it connects to, and the image with its filename. -/
def fetchImageFromUrl (url : String) :
    List IpAddr × Except ApiError (List UInt8 × String) :=
  match validateUrlScheme lib url with
  | .error e => ([], .error e)
  | .ok parsed =>
    match parsed.host with
    | none => ([], .error (err "url.no_host" []))
    | some host =>
      match resolveAndCheckHost net host with
      | .error e => ([], .error e)
      | .ok () =>
        match net.client with
        | .error e => ([], .error (err "url.client_failed" [e]))
        | .ok () =>
          let fetched := fetchRemoteBody lib net parsed
          (fetched.1, fetched.2.map fun bytes => (bytes, extractFilename parsed))

/-- Whatever the network does, the download connects to public addresses only. -/
def NoSsrf (url : String) : Prop :=
  ∀ net : Network, ∀ ip ∈ (fetchImageFromUrl lib net url).1, ip.isPublic = true

/-- The URL does not parse, has another scheme or no host, or names an address that is
blocked. -/
def RefusedAtOnce (url : String) : Prop :=
  ∀ parsed, lib.parse url = .ok parsed → allowedScheme parsed.scheme = true →
    ∀ host ∈ parsed.host, ∃ ip, host = .address ip ∧ isBlocked ip = true

variable {lib net}

/-- Nothing is connected to on behalf of a URL that is refused at once. -/
theorem fetch_of_refused {url : String} (h : RefusedAtOnce lib url) (net : Network) :
    (fetchImageFromUrl lib net url).1 = [] := by
  unfold fetchImageFromUrl validateUrlScheme
  cases hparse : lib.parse url with
  | error e => rfl
  | ok parsed =>
    cases hscheme : allowedScheme parsed.scheme with
    | false => simp [hscheme]
    | true =>
      simp only [hscheme, if_true]
      cases hhost : parsed.host with
      | none => rfl
      | some host =>
        obtain ⟨ip, rfl, hblocked⟩ := h parsed hparse hscheme host hhost
        simp [resolveAndCheckHost, resolveHost, hblocked]

def loopback : IpAddr := .v4 ⟨127, 0, 0, 1⟩

/-- Names resolve to a public address for the check and to the loopback address afterwards, and
the first server redirects there. -/
def hostile : Network where
  client := .ok ()
  resolve call _ := .ok [if call = 0 then .v4 ⟨8, 8, 8, 8⟩ else loopback]
  dial _ ips := if h : ips ≠ [] then .ok (ips.head h) else .error "unreachable"
  respond hop :=
    if hop = 0 then .ok ⟨302, some "http://127.0.0.1/", none, .ok []⟩ else .error .timeout
  dial_mem hop ips ip h := by
    split at h
    · cases h
      exact List.head_mem _
    · cases h

/-- A request that is not redirected is the last. -/
theorem send_of_none {left hop : ℕ} {url : Url}
    (h : (request net hop url).2.toOption.bind (redirectTarget lib url) = none) :
    send lib net left hop url = request net hop url := by
  unfold send
  simp only [h]

/-- A redirect is followed while there are any left. -/
theorem send_of_some {left hop : ℕ} {url target : Url}
    (h : (request net hop url).2.toOption.bind (redirectTarget lib url) = some target) :
    (send lib net (left + 1) hop url).1 =
      (request net hop url).1 ++ (send lib net left (hop + 1) target).1 := by
  rw [send.eq_def]
  simp only [h]

theorem request_hostile (hop : ℕ) {url : Url} {host : Host}
    (hscheme : allowedScheme url.scheme = true) (hhost : url.host = some host) :
    ∃ ip, request hostile hop url = ([ip], hostile.respond hop) := by
  cases host with
  | domain name =>
    exact ⟨loopback, by simp [request, hscheme, hhost, resolveHost, hostile, Except.bind]⟩
  | address ip =>
    exact ⟨ip, by simp [request, hscheme, hhost, resolveHost, hostile, Except.bind]⟩

/-- The second connection is to the loopback address. -/
theorem loopback_mem_send {url : Url} {host : Host} (hscheme : allowedScheme url.scheme = true)
    (hhost : url.host = some host) : loopback ∈ (send lib hostile maxRedirects 0 url).1 := by
  obtain ⟨ip, hfirst⟩ := request_hostile 0 hscheme hhost
  have htarget : (request hostile 0 url).2.toOption.bind (redirectTarget lib url) =
      some loopbackUrl := by
    rw [hfirst]
    exact lib.join_loopback url
  have hsecond : request hostile 1 loopbackUrl = ([loopback], .error .timeout) := rfl
  rw [maxRedirects, send_of_some htarget, send_of_none (by rw [hsecond]; rfl), hsecond]
  exact List.mem_append_right _ (List.mem_singleton_self _)

/-- The download is safe from its own server and resolver for exactly the URLs it refuses at
once. -/
theorem no_ssrf_iff (lib : Libraries) (url : String) :
    NoSsrf lib url ↔ RefusedAtOnce lib url := by
  constructor
  · intro hsafe parsed hparse hscheme host hhost
    by_contra hopen
    have hcheck : resolveAndCheckHost hostile host = .ok () := by
      cases host with
      | domain name => rfl
      | address ip =>
        have hip : isBlocked ip = false := by
          cases hip : isBlocked ip with
          | false => rfl
          | true => exact absurd ⟨ip, rfl, hip⟩ hopen
        simp [resolveAndCheckHost, resolveHost, hip]
    have hmem : loopback ∈ (fetchImageFromUrl lib hostile url).1 := by
      rw [Option.mem_def] at hhost
      simp only [fetchImageFromUrl, validateUrlScheme, hparse, hscheme, if_true, hhost, hcheck]
      exact loopback_mem_send hscheme hhost
    exact absurd (hsafe hostile loopback hmem) (by decide)
  · intro hrefused net ip hip
    rw [fetch_of_refused hrefused] at hip
    cases hip

/-- Two URLs as the libraries read them: a name, and the mapped loopback address. -/
def namedUrl : Url := ⟨"http", some (.domain "images.example"), some [""]⟩

def mappedUrl : Url :=
  ⟨"http", some (.address (.v6 ⟨0, 0, 0, 0, 0, 0xffff, 0x7f00, 1⟩)), some [""]⟩

def twoUrls : Libraries where
  parse text :=
    if text = "http://images.example/" then .ok namedUrl
    else if text = "http://[::ffff:127.0.0.1]/" then .ok mappedUrl
    else .error "relative URL without a base"
  join _ location := if location = "http://127.0.0.1/" then some loopbackUrl else none
  canonicalReason _ := none
  isImage _ := false
  join_loopback _ := rfl

/-- Names resolve to a public address, and nothing is redirected. -/
def friendly : Network where
  client := .ok ()
  resolve _ _ := .ok [.v4 ⟨8, 8, 8, 8⟩]
  dial _ ips := if h : ips ≠ [] then .ok (ips.head h) else .error "unreachable"
  respond _ := .ok ⟨404, none, none, .ok []⟩
  dial_mem hop ips ip h := by
    split at h
    · cases h
      exact List.head_mem _
    · cases h

/-- A name that resolves otherwise for the connection, and an address the check does not know. -/
theorem ssrf : ¬ NoSsrf twoUrls "http://images.example/" ∧
    ¬ NoSsrf twoUrls "http://[::ffff:127.0.0.1]/" := by
  constructor
  · intro h
    exact absurd (h hostile loopback (by decide +kernel)) (by decide)
  · intro h
    exact absurd (h friendly (.v6 ⟨0, 0, 0, 0, 0, 0xffff, 0x7f00, 1⟩) (by decide +kernel))
      (by decide)

/-- The check is about the first answer of the resolver. -/
theorem checked {host : Host} (h : resolveAndCheckHost net host = .ok ()) :
    ∃ addrs, resolveHost net 0 host = .ok addrs ∧ ∀ ip ∈ addrs, isBlocked ip = false := by
  unfold resolveAndCheckHost at h
  split at h
  · cases h
  · cases h
  · rename_i addrs _ hresolve
    split at h
    · cases h
    · rename_i hblocked
      refine ⟨addrs, hresolve, fun ip hip => ?_⟩
      rw [← Bool.not_eq_true]
      exact fun hb => hblocked (List.any_eq_true.mpr ⟨ip, hip, hb⟩)

/-- The resolver repeats itself, and no server redirects. -/
structure Steady (net : Network) : Prop where
  resolve : ∀ call name, net.resolve call name = net.resolve 0 name
  stays : ∀ hop r, net.respond hop = .ok r → r.status ∉ [301, 302, 303, 307, 308]

namespace Steady

variable (h : Steady net)
include h

theorem resolveHost (call : ℕ) (host : Host) :
    resolveHost net call host = UploadUrl.resolveHost net 0 host := by
  cases host with
  | domain name => exact h.resolve call name
  | address ip => rfl

theorem send (left : ℕ) (url : Url) : send lib net left 0 url = request net 0 url := by
  apply send_of_none
  unfold request
  split
  · split
    · rfl
    · split
      · rfl
      · cases hr : net.respond 0 with
        | error e => rfl
        | ok r => exact if_neg (h.stays 0 r hr)
  · rfl

/-- Over such a network the check is worth something. -/
theorem not_blocked (lib : Libraries) (url : String) :
    ∀ ip ∈ (fetchImageFromUrl lib net url).1, isBlocked ip = false := by
  intro ip hip
  unfold fetchImageFromUrl at hip
  split at hip
  · cases hip
  · rename_i parsed hparsed
    split at hip
    · cases hip
    · rename_i host hhost
      split at hip
      · cases hip
      · rename_i hcheck
        split at hip
        · cases hip
        · obtain ⟨addrs, hresolve, hopen⟩ := checked hcheck
          simp only [fetchRemoteBody, h.send, request, hhost, h.resolveHost, hresolve,
            Except.bind] at hip
          split at hip
          · split at hip
            · cases hip
            · rename_i dialled hdial
              rw [List.mem_singleton.mp hip]
              exact hopen dialled (net.dial_mem 0 addrs dialled hdial)
          · cases hip

end Steady

/-- Among the addresses of four octets the check misses the reserved ones from 240 on. -/
theorem isPublic_iff (x : Ipv4) : x.isPublic = true ↔ isPrivateIp x = false ∧ x.a < 240 := by
  have ha := x.a.toNat_lt
  have hb := x.b.toNat_lt
  -- the blocks that end within an octet are ranges of it
  have hshared : x.b.toNat / 2 ^ (16 - 10) = (64 : UInt8).toNat / 2 ^ (16 - 10) ↔
      64 ≤ x.b ∧ x.b ≤ 127 := by
    simp [UInt8.le_iff_toNat_le]
    omega
  have hclassB : x.b.toNat / 2 ^ (16 - 12) = (16 : UInt8).toNat / 2 ^ (16 - 12) ↔
      16 ≤ x.b ∧ x.b ≤ 31 := by
    simp [UInt8.le_iff_toNat_le]
    omega
  have hbench : x.b.toNat / 2 ^ (16 - 15) = (18 : UInt8).toNat / 2 ^ (16 - 15) ↔
      18 ≤ x.b ∧ x.b ≤ 19 := by
    simp [UInt8.le_iff_toNat_le]
    omega
  have hmulticast : x.a.toNat / 2 ^ (8 - 4) = (224 : UInt8).toNat / 2 ^ (8 - 4) ↔
      224 ≤ x.a ∧ x.a ≤ 239 := by
    simp [UInt8.le_iff_toNat_le]
    omega
  have hrest : x.a.toNat / 2 ^ (8 - 4) = (240 : UInt8).toNat / 2 ^ (8 - 4) ↔ ¬ x.a < 240 := by
    simp [UInt8.lt_iff_toNat_lt]
    omega
  have hoctet : ∀ m n : UInt8, m.toNat / 2 ^ (8 - 8) = n.toNat / 2 ^ (8 - 8) ↔ m = n := by
    simp [UInt8.toNat_inj]
  have hbroadcast : x.a = 255 → ¬ x.a < 240 := by
    intro h
    rw [h]
    decide
  simp (disch := decide) only [Ipv4.isPublic, Ipv4.reserved, List.all_cons, List.all_nil,
    Ipv4.contains_block_one, Ipv4.contains_block_two, Ipv4.contains_block_three, hshared, hclassB,
    hbench, hmulticast, hrest, hoctet, isPrivateIp, Bool.and_eq_true, Bool.not_eq_true',
    Bool.or_eq_false_iff, Bool.and_eq_false_iff, decide_eq_false_iff_not, not_and_or, not_not,
    or_assoc, and_assoc]
  constructor
  · rintro ⟨h0, h10, h100, h127, h169, h172, h192, h192', h192'', h198, h198', h203, h224, h240, -⟩
    exact ⟨h0, h10, h127, h169, h172, h192'', h224, .inl fun h => hbroadcast h h240, h100, h192,
      h192', h198', h203, h198, h240⟩
  · rintro ⟨h0, h10, h127, h169, h172, h192'', h224, -, h100, h192, h192', h198', h203, h198, h240⟩
    exact ⟨h0, h10, h100, h127, h169, h172, h192, h192', h192'', h198, h198', h203, h224, h240,
      trivial⟩

end PicHost.UploadUrl
