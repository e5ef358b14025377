import PicHost.Api.Categories
import PicHost.Api.RateLimit
import PicHost.Lib.IpAddress
import Mathlib.Data.List.MinMax

/-!
# The address behind a rate-limit key

What the proxy makes of the headers of a request, and what of it the limiter takes for the address
of the client.
-/

namespace PicHost.ClientAddress

open IpAddress
open Categories (trim isWhitespace)
open RateLimit (Policy)

/-! ## Headers -/

/-- Header values are bytes, which characters stand for. Hyper refuses control characters other
than a tab. -/
def isValueChar (c : Char) : Bool := (32 ≤ c.toNat && c.toNat < 256 && c.toNat != 127) || c == '\t'

def isVisible (c : Char) : Bool := (32 ≤ c.toNat && c.toNat < 127) || c == '\t'

/-- `HeaderValue::to_str`. -/
def toStr (value : String) : Option String :=
  if value.toList.all isVisible then some value else none

abbrev Headers := List (String × String)

def sameName (name name' : String) : Bool :=
  name.toList.map Char.toLower == name'.toList.map Char.toLower

/-- The values of a header in their order. -/
def Headers.values (headers : Headers) (name : String) : List String :=
  (headers.filter fun header => sameName name header.1).map Prod.snd

/-- A request as it comes to the proxy. `host` is what the proxy takes for the host. -/
structure Request where
  peer : Ipv4
  host : String
  headers : Headers
  valid : ∀ header ∈ headers, header.2.toList.all isValueChar = true

def Request.forwardedFor (r : Request) : List String := r.headers.values "x-forwarded-for"

/-! ## The proxy -/

inductive Variable
  | host
  | remoteAddr
  | proxyAddXForwardedFor
  | scheme
deriving DecidableEq

def Variable.value (r : Request) : Variable → String
  | .host => r.host
  | .remoteAddr => r.peer.text
  | .proxyAddXForwardedFor => ", ".intercalate (r.forwardedFor ++ [r.peer.text])
  | .scheme => "http"

structure Location where
  path : String
  proxyPass : Bool
  proxySetHeader : List (String × Variable)

namespace Location

def root : Location := ⟨"/", false, []⟩

-- Without `proxy_set_header` the client's headers go through as they are.
def u : Location := ⟨"/u/", true, []⟩

def t : Location := ⟨"/t/", true, []⟩

def api : Location :=
  ⟨"/api/", true, [("Host", .host), ("X-Real-IP", .remoteAddr),
    ("X-Forwarded-For", .proxyAddXForwardedFor), ("X-Forwarded-Proto", .scheme)]⟩

def metrics : Location := ⟨"/metrics", true, [("Host", .host), ("X-Real-IP", .remoteAddr)]⟩

def health : Location := ⟨"/health", false, []⟩

/-- The headers that the location sets, and the client's under other names. -/
def passed (l : Location) (r : Request) : Headers :=
  l.proxySetHeader.map (fun header => (header.1, header.2.value r)) ++
    r.headers.filter fun header => l.proxySetHeader.all fun set => !sameName set.1 header.1

end Location

def locations : List Location :=
  [.root, .u, .t, .api, .metrics, .health]

/-- The longest that the normalised path begins with. -/
def locationOf (path : String) : Option Location :=
  (locations.filter fun l => l.path.toList.isPrefixOf path.toList).argmax fun l => l.path.length

/-! ## The limiter -/

/-- `val.split(',').next()`. -/
def firstElement (val : String) : String := String.ofList (val.toList.takeWhile (· != ','))

def extractClientIp (headers : Headers) : String :=
  match (headers.values "x-forwarded-for").head? with
  | none => "unknown"
  | some xff =>
    match toStr xff with
    | none => "unknown"
    | some val => trim (firstElement val)

/-- The routes that `rate_limit_auth` and `rate_limit_public` limit. -/
inductive Route
  | register
  | login
  | refresh
  | logout
  | githubRedirect
  | githubCallback
  | googleRedirect
  | googleCallback
  | publicGet (publicKey : String)
  | publicGetThumb (imageId : String)
  | publicGetWebp (imageId : String)
  | publicGetThumbByKey (publicKey : String)

namespace Route

def path : Route → String
  | .register => "/api/v1/auth/register"
  | .login => "/api/v1/auth/login"
  | .refresh => "/api/v1/auth/refresh"
  | .logout => "/api/v1/auth/logout"
  | .githubRedirect => "/api/v1/auth/oauth/github"
  | .githubCallback => "/api/v1/auth/oauth/github/callback"
  | .googleRedirect => "/api/v1/auth/oauth/google"
  | .googleCallback => "/api/v1/auth/oauth/google/callback"
  | .publicGet publicKey => "/u/" ++ publicKey
  | .publicGetThumb imageId => "/u/thumb/" ++ imageId
  | .publicGetWebp imageId => "/u/webp/" ++ imageId
  | .publicGetThumbByKey publicKey => "/t/" ++ publicKey

def policy : Route → Policy
  | .publicGet _ | .publicGetThumb _ | .publicGetWebp _ | .publicGetThumbByKey _ => .publicAccess
  | _ => .auth

/-- The key of a request that is passed on. -/
def key (route : Route) (r : Request) : Option String :=
  ((locationOf route.path).filter Location.proxyPass).map fun l => extractClientIp (l.passed r)

end Route

/-- Requests have one key exactly if they come from one address. -/
def Identifies (route : Route) (T : Set Request) : Prop :=
  ∀ r ∈ T, ∀ r' ∈ T, route.key r = route.key r' ↔ r.peer = r'.peer

/-- The first address that the client names is its own. -/
def Request.Honest (r : Request) : Prop :=
  ∀ first ∈ r.forwardedFor.head?, (∀ value ∈ r.forwardedFor, value.toList.all isVisible = true) ∧
    trim (firstElement first) = r.peer.text

/-- The requests that name no address. -/
def plain : Set Request := {r | r.forwardedFor = []}

/-! ## Which location a route is under -/

theorem locationOf_auth {route : Route} (h : route.policy = .auth) :
    locationOf route.path = some .api := by
  cases route
  case publicGet => cases h
  case publicGetThumb => cases h
  case publicGetWebp => cases h
  case publicGetThumbByKey => cases h
  all_goals rfl

theorem locationOf_u (rest : String) : locationOf ("/u/" ++ rest) = some .u := by
  rw [locationOf, String.toList_append]
  rfl

theorem locationOf_t (rest : String) : locationOf ("/t/" ++ rest) = some .t := by
  rw [locationOf, String.toList_append]
  rfl

/-- The public routes are under locations that set no headers. -/
theorem location_public {route : Route} (h : route.policy = .publicAccess) :
    ∃ l, locationOf route.path = some l ∧ l.proxyPass = true ∧ l.proxySetHeader = [] := by
  cases route
  case publicGet publicKey => exact ⟨.u, locationOf_u publicKey, rfl, rfl⟩
  case publicGetThumb imageId =>
    refine ⟨.u, ?_, rfl, rfl⟩
    rw [Route.path, show "/u/thumb/" = "/u/" ++ "thumb/" from rfl, String.append_assoc]
    exact locationOf_u _
  case publicGetWebp imageId =>
    refine ⟨.u, ?_, rfl, rfl⟩
    rw [Route.path, show "/u/webp/" = "/u/" ++ "webp/" from rfl, String.append_assoc]
    exact locationOf_u _
  case publicGetThumbByKey publicKey => exact ⟨.t, locationOf_t publicKey, rfl, rfl⟩
  all_goals cases h

/-! ## What is passed on -/

theorem sameName_forwarded (name : String) :
    sameName "X-Forwarded-For" name = sameName "x-forwarded-for" name := by
  have hlower : "X-Forwarded-For".toList.map Char.toLower =
      "x-forwarded-for".toList.map Char.toLower := by decide
  rw [sameName, sameName, hlower]

theorem Headers.values_append (headers headers' : Headers) (name : String) :
    Headers.values (headers ++ headers') name = headers.values name ++ headers'.values name := by
  rw [Headers.values, List.filter_append, List.map_append, ← Headers.values, ← Headers.values]

/-- The location replaces the header of the client. -/
theorem values_passed_api (r : Request) : (Location.api.passed r).values "x-forwarded-for" =
    [", ".intercalate (r.forwardedFor ++ [r.peer.text])] := by
  rw [Location.passed, Headers.values_append]
  have hclient : Headers.values (r.headers.filter fun header =>
      Location.api.proxySetHeader.all fun set => !sameName set.1 header.1) "x-forwarded-for" =
      [] := by
    rw [Headers.values, List.filter_filter, List.map_eq_nil_iff, List.filter_eq_nil_iff]
    intro header _ hname
    rw [Bool.and_eq_true, ← sameName_forwarded, List.all_eq_true] at hname
    have hset := hname.2 ("X-Forwarded-For", .proxyAddXForwardedFor) (by simp [Location.api])
    rw [hname.1] at hset
    exact absurd hset (by decide)
  have hset : (Location.api.proxySetHeader.filter fun header =>
      sameName "x-forwarded-for" header.1).map Prod.snd = [.proxyAddXForwardedFor] := by decide
  rw [hclient, List.append_nil, Headers.values, List.filter_map, List.map_map]
  have hvalue := congrArg (List.map (Variable.value r)) hset
  rw [List.map_map] at hvalue
  exact hvalue

theorem passed_of_no_headers {l : Location} (h : l.proxySetHeader = []) (r : Request) :
    l.passed r = r.headers := by
  rw [Location.passed, h]
  simp

theorem key_auth {route : Route} (h : route.policy = .auth) (r : Request) :
    route.key r = some (extractClientIp (Location.api.passed r)) := by
  rw [Route.key, locationOf_auth h]
  rfl

theorem key_public {route : Route} (h : route.policy = .publicAccess) (r : Request) :
    route.key r = some (extractClientIp r.headers) := by
  obtain ⟨l, hl, hpass, hset⟩ := location_public h
  rw [Route.key, hl, Option.filter_some, if_pos hpass, Option.map_some,
    passed_of_no_headers hset]

/-! ## What is taken for the address -/

theorem address_char {c : Char} (h : c.isDigit = true ∨ c = '.') :
    isVisible c = true ∧ c ≠ ',' ∧ isWhitespace c = false := by
  rcases h with h | rfl
  · obtain ⟨hlow, hhigh⟩ := Char.isDigit_iff_toNat.mp h
    have hlow : 48 ≤ c.toNat := hlow
    have hhigh : c.toNat ≤ 57 := hhigh
    refine ⟨?_, ?_, ?_⟩
    · rw [isVisible, Bool.or_eq_true, Bool.and_eq_true, decide_eq_true_eq, decide_eq_true_eq]
      exact .inl ⟨by omega, by omega⟩
    · rintro rfl
      exact absurd hlow (by decide)
    · simp only [isWhitespace, Bool.or_eq_false_iff, Bool.and_eq_false_iff, decide_eq_false_iff_not,
        beq_eq_false_iff_ne]
      omega
  · decide

theorem visible_text (x : Ipv4) : x.text.toList.all isVisible = true :=
  List.all_eq_true.mpr fun _ hc => (address_char (Ipv4.isDigit_or_of_mem_text hc)).1

/-- An address alone is read back. -/
theorem trim_firstElement_text (x : Ipv4) : trim (firstElement x.text) = x.text := by
  have hfirst : x.text.toList.takeWhile (· != ',') = x.text.toList :=
    List.takeWhile_eq_self_iff.mpr fun _ hc =>
      bne_iff_ne.mpr (address_char (Ipv4.isDigit_or_of_mem_text hc)).2.1
  rw [firstElement, hfirst, String.ofList_toList, trim,
    Trimmed.trim_eq_self fun _ hc => (address_char (Ipv4.isDigit_or_of_mem_text hc)).2.2,
    String.ofList_toList]

theorem extractClientIp_eq {headers : Headers} {value : String} {rest : List String}
    (h : headers.values "x-forwarded-for" = value :: rest) : extractClientIp headers =
      if value.toList.all isVisible then trim (firstElement value) else "unknown" := by
  rw [extractClientIp, h, List.head?_cons]
  dsimp only
  by_cases hvisible : value.toList.all isVisible = true
  · rw [toStr, if_pos hvisible, if_pos hvisible]
  · rw [toStr, if_neg hvisible, if_neg hvisible]

/-- What the proxy puts after the client's first value starts with a comma. -/
theorem toList_joined (value : String) (rest : List String) (address : String) :
    (", ".intercalate (value :: rest ++ [address])).toList =
      value.toList ++ ',' :: ' ' :: (", ".intercalate (rest ++ [address])).toList := by
  have hne : (rest ++ [address]).map String.toList ≠ [] := by simp
  rw [String.toList_intercalate, String.toList_intercalate, List.cons_append, List.map_cons,
    List.intercalate_cons_of_ne_nil hne, List.append_assoc]
  rfl

theorem firstElement_joined (value : String) (rest : List String) (address : String) :
    firstElement (", ".intercalate (value :: rest ++ [address])) = firstElement value := by
  rw [firstElement, firstElement, toList_joined]
  congr 1
  -- The comma after the value ends it, if no comma in it does before.
  induction value.toList with
  | nil => rfl
  | cons c cs ih =>
    rw [List.cons_append, List.takeWhile_cons, List.takeWhile_cons, ih]

theorem visible_joined (values : List String) (x : Ipv4) :
    (", ".intercalate (values ++ [x.text])).toList.all isVisible = true ↔
      ∀ value ∈ values, value.toList.all isVisible = true := by
  induction values with
  | nil =>
    rw [List.nil_append, String.toList_intercalate]
    simpa using visible_text x
  | cons value rest ih =>
    have hsep : isVisible ',' = true ∧ isVisible ' ' = true := by decide
    rw [toList_joined, List.all_append, List.all_cons, List.all_cons, hsep.1, hsep.2,
      Bool.true_and, Bool.true_and, Bool.and_eq_true, ih, List.forall_mem_cons]

/-- No address reads as the key of the requests without one. -/
theorem unknown_ne_text (x : Ipv4) : "unknown" ≠ x.text := by
  intro h
  have hu : 'u' ∈ x.text.toList := h ▸ by decide
  rcases Ipv4.isDigit_or_of_mem_text hu with hdigit | hdot
  · exact absurd hdigit (by decide)
  · exact absurd hdot (by decide)

theorem honest_of_plain {r : Request} (h : r.forwardedFor = []) : r.Honest := by
  intro first hfirst
  rw [h] at hfirst
  cases hfirst

theorem clientIp_eq_iff (r : Request) :
    extractClientIp (Location.api.passed r) = r.peer.text ↔ r.Honest := by
  rw [extractClientIp_eq (values_passed_api r)]
  cases hvalues : r.forwardedFor with
  | nil =>
    refine iff_of_true ?_ (honest_of_plain hvalues)
    have htext : ", ".intercalate ([] ++ [r.peer.text]) = r.peer.text := by
      apply String.toList_injective
      rw [List.nil_append, String.toList_intercalate]
      simp
    rw [htext, if_pos (visible_text _), trim_firstElement_text]
  | cons value rest =>
    rw [firstElement_joined, Request.Honest, hvalues]
    simp only [List.head?_cons, Option.mem_some_iff, forall_eq']
    by_cases hvisible : ∀ v ∈ value :: rest, v.toList.all isVisible = true
    · rw [if_pos ((visible_joined _ _).mpr hvisible)]
      exact ⟨fun h => ⟨hvisible, h⟩, fun h => h.2⟩
    · rw [if_neg (mt (visible_joined _ _).mp hvisible)]
      exact iff_of_false (unknown_ne_text _) fun h => hvisible h.1

theorem key_plain {route : Route} (h : route.policy = .publicAccess) {r : Request}
    (hr : r ∈ plain) : route.key r = some "unknown" := by
  have hvalues : r.headers.values "x-forwarded-for" = [] := hr
  rw [key_public h, extractClientIp, hvalues]
  rfl

def plainRequest (peer : Ipv4) : Request := ⟨peer, "pics", [], by simp⟩

theorem policy_cases (route : Route) : route.policy = .auth ∨ route.policy = .publicAccess := by
  cases route <;> first | exact .inl rfl | exact .inr rfl

/-- With the requests that name no address among them, requests are told apart by their peers
exactly if they are for the routes of the API and no client names another address first. -/
theorem identifies_iff (route : Route) (T : Set Request) :
    Identifies route (T ∪ plain) ↔ route.policy = .auth ∧ ∀ r ∈ T, r.Honest := by
  rcases policy_cases route with hpolicy | hpolicy
  · constructor
    · -- Each request has the key of a plain one from its peer.
      refine fun h => ⟨hpolicy, fun r hr => ?_⟩
      have hplain : plainRequest r.peer ∈ plain := rfl
      have hkey := (h r (.inl hr) _ (.inr hplain)).mpr rfl
      rw [key_auth hpolicy, key_auth hpolicy] at hkey
      exact (clientIp_eq_iff r).mp ((Option.some.inj hkey).trans
        ((clientIp_eq_iff _).mpr (honest_of_plain hplain)))
    · rintro ⟨-, hhonest⟩ r hr r' hr'
      have hkey (r : Request) (hr : r ∈ T ∪ plain) : route.key r = some r.peer.text := by
        rw [key_auth hpolicy, (clientIp_eq_iff r).mpr]
        exact hr.elim (hhonest r) honest_of_plain
      rw [hkey r hr, hkey r' hr', Option.some_inj, Ipv4.text_injective.eq_iff]
  · refine iff_of_false (fun h => ?_) fun h => absurd (hpolicy.symm.trans h.1) (by decide)
    -- Two clients that send no such header share one key.
    have hplain (peer : Ipv4) : plainRequest peer ∈ plain := rfl
    have hsame := (h _ (.inr (hplain ⟨10, 0, 0, 1⟩)) _ (.inr (hplain ⟨10, 0, 0, 2⟩))).mp
      ((key_plain hpolicy (hplain _)).trans (key_plain hpolicy (hplain _)).symm)
    exact absurd hsame (by decide)

/-- A client whose requests each name another address. -/
def renamed (address : String) (h : address.toList.all isValueChar = true) : Request :=
  ⟨⟨10, 0, 0, 1⟩, "pics", [("X-Forwarded-For", address)], by simpa using h⟩

/-- A login from one address under two keys. -/
theorem login_renamed : ¬ ∀ (route : Route) (T : Set Request), Identifies route T := by
  intro h
  have hkey := (h .login Set.univ (renamed "1.1.1.1" (by decide)) trivial
    (renamed "2.2.2.2" (by decide)) trivial).mpr rfl
  rw [key_auth rfl, key_auth rfl, extractClientIp_eq (values_passed_api _),
    extractClientIp_eq (values_passed_api _)] at hkey
  revert hkey
  decide

end PicHost.ClientAddress
