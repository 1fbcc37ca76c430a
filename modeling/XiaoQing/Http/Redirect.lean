import Mathlib.Data.List.DropRight
import Mathlib.Data.List.Chain
import Mathlib.Tactic.Common

namespace XiaoQing.Http

/-- A URL as `urlsplit` takes it apart. -/
structure SplitResult where
  scheme : String
  hostname : Option String
  port : Option Nat
  username : Option String
  password : Option String

/-- The string and URL functions of the standard library; `urlsplit` is `none` where it, or the port
of its result, raises. -/
structure Stdlib where
  casefold : String → String
  upper : String → String
  urlsplit : String → Option SplitResult
  urljoin : String → String → String

/-- `rstrip(".")`. -/
def rstripDots (s : String) : String := String.ofList (s.toList.rdropWhile (· = '.'))

abbrev Origin := String × String × Nat

abbrev Headers := List (String × String)

inductive BoundedHttpError
  | redirectPolicy (message : String)
  | httpStatus (status : Nat)
  | valueError (message : String)
  | transport (message : String)

structure RedirectPolicy where
  maxHops : Nat
  allowedSchemes : List String
  allowedOrigins : Option (List String)
  sameOriginOnly : Bool
  allowHttpsUpgradeSameHost : Bool

/-- One request on the wire; `V` is the type of the options handed to the client. -/
structure Request (V : Type) where
  method : String
  url : String
  headers : Headers
  kwargs : List (String × V)

/-- What the client hands back: `url` where it reports one, and what reading the body gives. -/
structure Response (B : Type) where
  status : Nat
  url : Option String
  location : Option String
  read : Except BoundedHttpError B

/-- The client and all servers: the answer to a request after the requests before it. -/
abbrev Servers (V B : Type) := List (Request V) → Request V → Except BoundedHttpError (Response B)

def redirectStatuses : List Nat := [301,302,303,307,308]

def sensitiveRedirectHeaders : List String := ["authorization","cookie","proxy-authorization"]

variable {V B : Type}

/-- `parsed.port or (443 if scheme == "https" else 80)`. -/
def portOrDefault (scheme : String) : Option Nat → Nat
  | some (p+1) => p+1
  | _ => if scheme="https" then 443 else 80

def originFromUrl (lib : Stdlib) (url : String) : Except BoundedHttpError Origin :=
  match lib.urlsplit url with
  | none => .error (.redirectPolicy "invalid request URL")
  | some parsed =>
    let scheme := lib.casefold parsed.scheme
    let host := lib.casefold (rstripDots (parsed.hostname.getD ""))
    if scheme∉["http","https"] ∨ host="" then
      .error (.redirectPolicy "request URL must be absolute HTTP(S)")
    else if parsed.username≠none ∨ parsed.password≠none then
      .error (.redirectPolicy "request URL userinfo is not allowed")
    else .ok (scheme,host,portOrDefault scheme parsed.port)

/-- `target_origin not in {_origin_from_url(origin) for origin in policy.allowed_origins}`. -/
def checkAllowedOrigins (lib : Stdlib) (target : Origin) :
    Option (List String) → Except BoundedHttpError Unit
  | none => .ok ()
  | some origins =>
    match origins.mapM (originFromUrl lib) with
    | .error e => .error e
    | .ok allowed =>
      if target∈allowed then .ok ()
      else .error (.redirectPolicy "redirect origin is not allowed")

def redirectTarget (lib : Stdlib) (currentUrl location : String) (policy : RedirectPolicy) :
    Except BoundedHttpError (String × Bool) := do
  let targetUrl := lib.urljoin currentUrl location
  let current ← originFromUrl lib currentUrl
  let target ← originFromUrl lib targetUrl
  if current.1="https" ∧ target.1≠"https" then
    throw (.redirectPolicy "HTTPS redirect downgrade is not allowed")
  if target.1∉policy.allowedSchemes.map lib.casefold then
    throw (.redirectPolicy "redirect scheme is not allowed")
  let upgraded := policy.allowHttpsUpgradeSameHost=true ∧ current.1="http" ∧ target.1="https" ∧
    current.2.1=target.2.1
  if policy.sameOriginOnly=true ∧ ¬(target=current ∨ upgraded) then
    throw (.redirectPolicy "cross-origin redirect is not allowed")
  checkAllowedOrigins lib target policy.allowedOrigins
  return (targetUrl,target=current)

def requestHeaders (lib : Stdlib) (headers : Headers) (acceptEncoding : String) :
    Except BoundedHttpError Headers :=
  if acceptEncoding∉["identity","gzip, deflate"] then
    .error (.valueError "accept_encoding must be identity or gzip, deflate")
  else .ok (headers.filter (fun h => lib.casefold h.1≠"accept-encoding")++
    [("Accept-Encoding",acceptEncoding)])

def withoutSensitiveHeaders (lib : Stdlib) (headers : Headers) : Headers :=
  headers.filter (fun h => lib.casefold h.1∉sensitiveRedirectHeaders)

def nextRedirectHop (lib : Stdlib) (response : Response B) (method : String) (hop : Nat)
    (policy : RedirectPolicy) (currentUrl : String) (currentHeaders : Headers) :
    Except BoundedHttpError (String × Headers) :=
  if method∉["GET","HEAD"] then
    .error (.redirectPolicy "redirects are disabled for this HTTP method")
  else if policy.maxHops≤hop then .error (.redirectPolicy "too many redirects")
  else
    match response.location with
    | none => .error (.redirectPolicy "redirect has no Location header")
    | some "" => .error (.redirectPolicy "redirect has no Location header")
    | some location =>
      match redirectTarget lib (response.url.getD currentUrl) location policy with
      | .error e => .error e
      | .ok (nextUrl,sameOrigin) =>
        .ok (nextUrl,if sameOrigin then currentHeaders
          else withoutSensitiveHeaders lib currentHeaders)

/-- The loop over the hops that are left: the requests it makes and how it ends. `prepare` makes the
options of a hop, `checked` may fail once the answer is there. -/
def redirectLoop (lib : Stdlib) (servers : Servers V B) (policy : RedirectPolicy) (method : String)
    (successStatuses : List Nat) (prepare : Nat → Except BoundedHttpError (List (String × V)))
    (checked : Nat → Except BoundedHttpError Unit) : Nat → Nat → String → Headers →
    List (Request V) → List (Request V) × Except BoundedHttpError B
  | 0,_,_,_,_ => ([],.error (.redirectPolicy "too many redirects"))
  | left+1,hop,currentUrl,currentHeaders,past =>
    match prepare hop with
    | .error e => ([],.error e)
    | .ok kwargs =>
      let request : Request V := ⟨method,currentUrl,currentHeaders,kwargs⟩
      match servers past request with
      | .error e => ([request],.error e)
      | .ok response =>
        match checked hop with
        | .error e => ([request],.error e)
        | .ok _ =>
          if response.status∈redirectStatuses then
            match nextRedirectHop lib response method hop policy currentUrl currentHeaders with
            | .error e => ([request],.error e)
            | .ok (url,headers) =>
              let rest := redirectLoop lib servers policy method successStatuses prepare checked
                left (hop+1) url headers (past++[request])
              (request::rest.1,rest.2)
          else if response.status∉successStatuses then ([request],.error (.httpStatus response.status))
          else ([request],response.read)

/-- `kwargs.pop("params", None)` after the first hop. -/
def hopKwargs (kwargs : List (String × V)) (hop : Nat) : List (String × V) :=
  if hop=0 then kwargs else kwargs.filter (fun k => k.1≠"params")

def aiohttpRequestBounded (lib : Stdlib) (servers : Servers V B) (policy : RedirectPolicy)
    (successStatuses : List Nat) (method url : String) (headers : Headers)
    (requestKwargs : List (String × V)) (acceptEncoding : String) :
    List (Request V) × Except BoundedHttpError B :=
  let normalizedMethod := lib.upper method
  match originFromUrl lib url with
  | .error e => ([],.error e)
  | .ok _ =>
    match requestHeaders lib headers acceptEncoding with
    | .error e => ([],.error e)
    | .ok currentHeaders =>
      if requestKwargs.any (fun k =>
          k.1∈["allow_redirects","auto_decompress","headers","method","url"]) then
        ([],.error (.valueError
          "bounded aiohttp request options cannot override transport guards"))
      else
        redirectLoop lib servers policy normalizedMethod successStatuses
          (fun hop => .ok (hopKwargs requestKwargs hop)) (fun _ => .ok ())
          (policy.maxHops+1) 0 url currentHeaders []

/-- `requests_request_bounded`; `timeout` is `_requests_deadline_timeout` at a hop, which fails once
the deadline has passed, and `checked` is `_ensure_before_deadline`. -/
def requestsRequestBounded (lib : Stdlib) (servers : Servers V B) (policy : RedirectPolicy)
    (successStatuses : List Nat) (method url : String) (headers : Headers)
    (requestKwargs : List (String × V)) (acceptEncoding : String)
    (timeout : Nat → Except BoundedHttpError V) (checked : Nat → Except BoundedHttpError Unit) :
    List (Request V) × Except BoundedHttpError B :=
  let normalizedMethod := lib.upper method
  match originFromUrl lib url with
  | .error e => ([],.error e)
  | .ok _ =>
    match requestHeaders lib headers acceptEncoding with
    | .error e => ([],.error e)
    | .ok currentHeaders =>
      if requestKwargs.any (fun k => k.1∈["allow_redirects","stream","headers","method","url"]) then
        ([],.error (.valueError
          "bounded requests options cannot override transport guards"))
      else
        redirectLoop lib servers policy normalizedMethod successStatuses
          (fun hop => (timeout hop).map (fun t =>
            ("timeout",t)::(hopKwargs requestKwargs hop).filter (fun k => k.1≠"timeout")))
          checked (policy.maxHops+1) 0 url currentHeaders []

/-! Credentials stay at the origin -/

variable {lib : Stdlib} {servers : Servers V B} {policy : RedirectPolicy} {method : String}
  {successStatuses : List Nat} {prepare : Nat → Except BoundedHttpError (List (String × V))}
  {checked : Nat → Except BoundedHttpError Unit} {url url' start : String}
  {headers headers' : Headers} {response : Response B} {hop left : Nat} {past : List (Request V)}

/-- The client reports the URL it requested, up to what leaves the origin alone. -/
def Reports (lib : Stdlib) (servers : Servers V B) : Prop :=
  ∀past request response,servers past request=.ok response →
    ∀v,response.url=some v → originFromUrl lib v=originFromUrl lib request.url

/-- Headers that may go to `url` in a chain that began at `start`. -/
def Fit (lib : Stdlib) (start url : String) (headers : Headers) : Prop :=
  ∀h∈headers,lib.casefold h.1∈sensitiveRedirectHeaders →
    originFromUrl lib url=originFromUrl lib start

/-- A redirect that went from `current` to `target`. -/
structure Redirected (lib : Stdlib) (current target : String) (sameOrigin : Bool) : Prop where
  upgrade : ∀o o',originFromUrl lib current=.ok o → originFromUrl lib target=.ok o' →
    o.1="https" → o'.1="https"
  same : sameOrigin=true → originFromUrl lib target=originFromUrl lib current

theorem redirectTarget_redirected {current location target : String} {sameOrigin : Bool}
    (h : redirectTarget lib current location policy=.ok (target,sameOrigin)) :
    Redirected lib current target sameOrigin := by
  simp only [redirectTarget,bind,Except.bind,pure,Except.pure] at h
  cases hc : originFromUrl lib current with
  | error e => rw [hc] at h; cases h
  | ok o =>
    cases ht : originFromUrl lib (lib.urljoin current location) with
    | error e => rw [hc,ht] at h; cases h
    | ok o' =>
      simp only [hc,ht] at h
      split_ifs at h with hdown hscheme hcross
      split at h
      · cases h
      · obtain ⟨rfl,hsame⟩ := Prod.mk.inj (Except.ok.inj h)
        apply Redirected.mk
        · intro p p' hp hp' hhttps
          rw [hc] at hp
          rw [ht] at hp'
          cases hp
          cases hp'
          by_contra hne
          exact hdown ⟨hhttps,hne⟩
        · intro hs
          have heq : o'=o := of_decide_eq_true (hsame.trans hs)
          rw [hc,ht,heq]

structure Hopped (lib : Stdlib) (policy : RedirectPolicy) (method : String) (hop : Nat)
    (url url' : String) (headers headers' : Headers) : Prop where
  method : method="GET" ∨ method="HEAD"
  hops : hop<policy.maxHops
  upgrade : ∀o o',originFromUrl lib url=.ok o → originFromUrl lib url'=.ok o' →
    o.1="https" → o'.1="https"
  headers : headers'=withoutSensitiveHeaders lib headers ∨
    headers'=headers ∧ originFromUrl lib url'=originFromUrl lib url

theorem nextRedirectHop_hopped
    (hr : originFromUrl lib (response.url.getD url)=originFromUrl lib url)
    (h : nextRedirectHop lib response method hop policy url headers=.ok (url',headers')) :
    Hopped lib policy method hop url url' headers headers' := by
  simp only [nextRedirectHop] at h
  split_ifs at h with hmethod hhops
  split at h
  · cases h
  · cases h
  · split at h
    · cases h
    · rename_i nextUrl sameOrigin htarget
      obtain ⟨rfl,hheaders⟩ := Prod.mk.inj (Except.ok.inj h)
      have hredirected := redirectTarget_redirected htarget
      apply Hopped.mk
      · simpa using hmethod
      · omega
      · intro o o' ho ho'
        exact hredirected.upgrade o o' (hr.trans ho) ho'
      · cases sameOrigin with
        | false => exact Or.inl hheaders.symm
        | true => exact Or.inr ⟨hheaders.symm,(hredirected.same rfl).trans hr⟩

theorem Hopped.fit (h : Hopped lib policy method hop url url' headers headers')
    (hf : Fit lib start url headers) : Fit lib start url' headers' := by
  intro k hk hs
  cases h.headers with
  | inl he =>
    rw [he,withoutSensitiveHeaders,List.mem_filter] at hk
    exact absurd hs (of_decide_eq_true hk.2)
  | inr he =>
    rw [he.1] at hk
    exact he.2.trans (hf k hk hs)

def NoDowngrade (lib : Stdlib) (r r' : Request V) : Prop :=
  ∀o o',originFromUrl lib r.url=.ok o → originFromUrl lib r'.url=.ok o' → o.1="https" → o'.1="https"

/-- What a chain of requests that began at `start` keeps to, with `left` hops to go. -/
structure Chain (lib : Stdlib) (start method url : String) (left : Nat)
    (trace : List (Request V)) : Prop where
  first : ∀r∈trace.head?,r.url=url
  length : trace.length≤left
  verb : ∀r∈trace,r.method=method
  followed : 2≤trace.length → method="GET" ∨ method="HEAD"
  fit : ∀r∈trace,Fit lib start r.url r.headers
  noDowngrade : trace.IsChain (NoDowngrade lib)

theorem Chain.single (request : Request V) (hu : request.url=url) (hm : request.method=method)
    (hf : Fit lib start request.url request.headers) : Chain lib start method url (left+1) [request] := by
  apply Chain.mk
  · intro r hr
    cases hr
    exact hu
  · simp
  · intro r hr
    rw [List.mem_singleton.mp hr]
    exact hm
  · intro h
    simp at h
  · intro r hr
    rw [List.mem_singleton.mp hr]
    exact hf
  · exact List.IsChain.singleton request

theorem Chain.cons {trace : List (Request V)} (request : Request V) (hu : request.url=url)
    (hm : request.method=method) (hf : Fit lib start request.url request.headers)
    (hh : Hopped lib policy method hop url url' headers headers')
    (h : Chain lib start method url' left trace) :
    Chain lib start method url (left+1) (request::trace) := by
  apply Chain.mk
  · intro r hr
    cases hr
    exact hu
  · have hlen := h.length
    simp only [List.length_cons]
    omega
  · intro r hr
    cases List.mem_cons.mp hr with
    | inl he => rw [he]; exact hm
    | inr hr' => exact h.verb r hr'
  · exact fun _ => hh.method
  · intro r hr
    cases List.mem_cons.mp hr with
    | inl he => rw [he]; exact hf
    | inr hr' => exact h.fit r hr'
  · rw [List.isChain_cons]
    refine ⟨?_,h.noDowngrade⟩
    intro r hr o o' ho ho'
    rw [hu] at ho
    rw [h.first r hr] at ho'
    exact hh.upgrade o o' ho ho'

theorem redirectLoop_chain (hreports : Reports lib servers) (hf : Fit lib start url headers) :
    Chain lib start method url left
      (redirectLoop lib servers policy method successStatuses prepare checked left hop url headers
        past).1 := by
  have hnone {n : Nat} {url : String} : Chain lib start method url n ([] : List (Request V)) :=
    ⟨nofun,Nat.zero_le _,nofun,fun h => by simp at h,nofun,List.IsChain.nil⟩
  induction left generalizing hop url headers past with
  | zero => exact hnone
  | succ left ih =>
    simp only [redirectLoop]
    split
    · exact hnone
    · rename_i kwargs _
      set request : Request V := ⟨method,url,headers,kwargs⟩ with hrequest
      have hsingle : Chain lib start method url (left+1) [request] := .single request rfl rfl hf
      split
      · exact hsingle
      · rename_i response hanswer
        split
        · exact hsingle
        · split
          · split
            · exact hsingle
            · rename_i url' headers' hnext
              have hr : originFromUrl lib (response.url.getD url)=originFromUrl lib url := by
                cases hv : response.url with
                | none => rfl
                | some v => exact hreports past request response hanswer v hv
              have hhopped := nextRedirectHop_hopped hr hnext
              exact Chain.cons request rfl rfl hf hhopped (ih (hhopped.fit hf))
          · split
            · exact hsingle
            · exact hsingle

structure Confined (lib : Stdlib) (policy : RedirectPolicy) (method url : String)
    (trace : List (Request V)) : Prop where
  hops : trace.length≤policy.maxHops+1
  verb : ∀r∈trace,r.method=lib.upper method
  followed : 2≤trace.length → lib.upper method="GET" ∨ lib.upper method="HEAD"
  credentials : ∀r∈trace,∀h∈r.headers,lib.casefold h.1∈sensitiveRedirectHeaders →
    ∃o,originFromUrl lib url=.ok o ∧ originFromUrl lib r.url=.ok o
  noDowngrade : trace.IsChain (NoDowngrade lib)

theorem Chain.confined {trace : List (Request V)} {o : Origin} (ho : originFromUrl lib start=.ok o)
    (h : Chain lib start (lib.upper method) url (policy.maxHops+1) trace) :
    Confined lib policy method start trace :=
  ⟨h.length,h.verb,h.followed,fun r hr k hk hs => ⟨o,ho,(h.fit r hr k hk hs).trans ho⟩,
    h.noDowngrade⟩

theorem confined_nil : Confined lib policy method url ([] : List (Request V)) :=
  ⟨Nat.zero_le _,nofun,fun h => by simp at h,nofun,List.IsChain.nil⟩

/-- Both transports keep credentials at the origin, never step down, and follow at most the hops
allowed, for GET and HEAD alone. -/
theorem bounded_requests_confined (lib : Stdlib) (servers : Servers V B) (policy : RedirectPolicy)
    (successStatuses : List Nat) (method url : String) (headers : Headers)
    (requestKwargs : List (String × V)) (acceptEncoding : String)
    (timeout : Nat → Except BoundedHttpError V) (checked : Nat → Except BoundedHttpError Unit)
    (hreports : Reports lib servers) :
    Confined lib policy method url (aiohttpRequestBounded lib servers policy successStatuses method
      url headers requestKwargs acceptEncoding).1 ∧
    Confined lib policy method url (requestsRequestBounded lib servers policy successStatuses method
      url headers requestKwargs acceptEncoding timeout checked).1 := by
  have hfit (hs : Headers) : Fit lib url url hs := fun _ _ _ => rfl
  constructor
  · simp only [aiohttpRequestBounded]
    split
    · exact confined_nil
    · rename_i o ho
      split
      · exact confined_nil
      · split_ifs
        · exact confined_nil
        · exact (redirectLoop_chain hreports (hfit _)).confined ho
  · simp only [requestsRequestBounded]
    split
    · exact confined_nil
    · rename_i o ho
      split
      · exact confined_nil
      · split_ifs
        · exact confined_nil
        · exact (redirectLoop_chain hreports (hfit _)).confined ho

def asciiLib : Stdlib where
  casefold := fun s => String.ofList (s.toList.map Char.toLower)
  upper := fun s => String.ofList (s.toList.map Char.toUpper)
  urlsplit := fun url =>
    if url="https://one.example/a" ∨ url="https://one.example/c" then
      some ⟨"https",some "one.example",none,none,none⟩
    else if url="https://two.example/b" then some ⟨"https",some "two.example",none,none,none⟩
    else none
  urljoin := fun _ location => location

def sampleServers : Servers String String := fun _ request =>
  if request.url="https://one.example/a" then
    .ok ⟨302,some request.url,some "https://two.example/b",.ok ""⟩
  else if request.url="https://two.example/b" then
    .ok ⟨307,some request.url,some "https://one.example/c",.ok ""⟩
  else .ok ⟨200,some request.url,none,.ok "done"⟩

theorem sampleServers_reports : Reports asciiLib sampleServers := by
  intro past request response h v hv
  simp only [sampleServers] at h
  split_ifs at h
  all_goals
    cases h
    cases hv
    rfl

/-- The token leaves with the first request alone. -/
theorem bounded_requests_confined_example :
    (aiohttpRequestBounded asciiLib sampleServers ⟨3,["https"],none,false,false⟩ [200] "get"
      "https://one.example/a" [("AUTHORIZATION","token"),("Accept","*/*")] [] "identity").1.map
      (fun r => (r.url,r.headers.map Prod.fst))=
      [("https://one.example/a",["AUTHORIZATION","Accept","Accept-Encoding"]),
        ("https://two.example/b",["Accept","Accept-Encoding"]),
        ("https://one.example/c",["Accept","Accept-Encoding"])] ∧
    Confined asciiLib ⟨3,["https"],none,false,false⟩ "get" "https://one.example/a"
      (aiohttpRequestBounded asciiLib sampleServers ⟨3,["https"],none,false,false⟩ [200] "get"
        "https://one.example/a" [("AUTHORIZATION","token"),("Accept","*/*")] [] "identity").1 := by
  constructor
  · decide
  · exact (bounded_requests_confined asciiLib sampleServers ⟨3,["https"],none,false,false⟩ [200] "get"
      "https://one.example/a" [("AUTHORIZATION","token"),("Accept","*/*")] [] "identity"
      (fun _ => .error (.transport "response total timeout exceeded")) (fun _ => .ok ())
      sampleServers_reports).1

end XiaoQing.Http
