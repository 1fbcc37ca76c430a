import XiaoQing.Http.Redirect

namespace XiaoQing.Http

/-- What `ipaddress.ip_address` tells of an address. -/
structure IpAddress where
  version6 : Bool
  isGlobal : Bool
  inFakeDnsNetworks : Bool

/-- Besides, the library functions that only the safe client calls; `ipAddress` and `ipv4Address` are
`none` where the constructor raises, `isDecimal` is the class `\d`. -/
structure NetLib extends Stdlib where
  lower : String → String
  strip : String → String
  isDecimal : Char → Bool
  ipAddress : String → Option IpAddress
  ipv4Address : String → Option String

inductive SafeError
  | unsafeUrl (message : String)
  | valueError (message : String)
  | osError (message : String)
  | response (message : String)

/-- `getaddrinfo` at each hop: `none` for `gaierror`, and an address that is not a string for one
that cannot be used. -/
abbrev Dns := Nat → String → Nat → Option (List (Option String))

inductive Family
  | unspec
  | inet
  | inet6
  deriving DecidableEq

abbrev Resolver := String → Family → Except SafeError (List String)

structure SafeResponse (B : Type) where
  status : Nat
  location : Option String
  read : Except SafeError (Option B)

abbrev Client (B : Type) := Nat → Resolver → String → Headers →
  List String × Except SafeError (SafeResponse B)

def crossOriginHeaderAllowlist : List String :=
  ["accept","accept-encoding","accept-language","range","user-agent"]

def maxRedirects : Nat := 3

def defaultPort (scheme : String) : Nat := if scheme="https" then 443 else 80

variable {B : Type}

def isPublicIp (lib : NetLib) (address : String) : Bool :=
  match lib.ipAddress address with
  | some ip => ip.isGlobal
  | none => false

def isTransparentProxyFakeIp (lib : NetLib) (address : String) : Bool :=
  match lib.ipAddress address with
  | some ip => ip.inFakeDnsNetworks
  | none => false

/-- `(?:0x[0-9a-f]+|\\d+)` in full, ignoring case. -/
def isNumberSpelling (lib : NetLib) (part : List Char) : Bool :=
  (match part with
    | '0'::x::digits => (x = 'x' || x = 'X') && !digits.isEmpty && digits.all (fun c =>
        ('0' ≤ c && c ≤ '9') || ('a' ≤ c && c ≤ 'f') || ('A' ≤ c && c ≤ 'F'))
    | _ => false) ||
  (!part.isEmpty && part.all lib.isDecimal)

def looksLikeNoncanonicalIpv4 (lib : NetLib) (host : String) : Bool :=
  let parts := host.toList.splitOn '.'
  if isNumberSpelling lib host.toList then true
  else if parts.length≠4 then false
  else if parts.all (isNumberSpelling lib) then
    match lib.ipv4Address host with
    | none => true
    | some canonical => canonical≠host
  else false

def validatePublicUrl (lib : NetLib) (url : String) : Except SafeError SplitResult :=
  match lib.urlsplit url with
  | none => .error (.unsafeUrl "invalid URL")
  | some parsed =>
    let scheme := lib.lower parsed.scheme
    let host := lib.lower (rstripDots (parsed.hostname.getD ""))
    if scheme∉["http","https"] ∨ host="" then
      .error (.unsafeUrl "only absolute http(s) URLs are allowed")
    else if parsed.username≠none ∨ parsed.password≠none then
      .error (.unsafeUrl "URL userinfo is not allowed")
    else if parsed.port≠none ∧ parsed.port≠some (defaultPort scheme) then
      .error (.unsafeUrl "non-standard URL port is not allowed")
    else if host="localhost" ∨ ".localhost".toList.isSuffixOf host.toList then
      .error (.unsafeUrl "local hostname is not allowed")
    else if looksLikeNoncanonicalIpv4 lib host then
      .error (.unsafeUrl "noncanonical IPv4 literal is not allowed")
    else
      match lib.ipAddress host with
      | none => .ok parsed
      | some literalIp =>
        if literalIp.isGlobal then .ok parsed
        else .error (.unsafeUrl "non-public IP address is not allowed")

def resolvePublicHost (lib : NetLib) (dns : Dns) (hop : Nat) (host : String) (port : Nat)
    (allowTransparentProxyFakeDns : Bool) : Except SafeError (List String) :=
  match dns hop host port with
  | none => .error (.unsafeUrl "hostname could not be resolved")
  | some infos =>
    match infos.mapM id with
    | none => .error (.unsafeUrl "hostname has an invalid DNS result")
    | some resolved =>
      let addresses := resolved.eraseDups
      if addresses=[] ∨ addresses.any (fun address => !isPublicIp lib address &&
          !(allowTransparentProxyFakeDns && isTransparentProxyFakeIp lib address)) then
        .error (.unsafeUrl "hostname has a non-public DNS result")
      else .ok addresses

def validatePublicFetchTarget (lib : NetLib) (dns : Dns) (hop : Nat) (url : String)
    (allowTransparentProxyFakeDns : Bool) : Except SafeError (SplitResult × List String) :=
  match validatePublicUrl lib url with
  | .error e => .error e
  | .ok parsed =>
    let port := match parsed.port with
      | some (p+1) => p+1
      | _ => defaultPort (lib.lower parsed.scheme)
    match resolvePublicHost lib dns hop (parsed.hostname.getD "") port
        allowTransparentProxyFakeDns with
    | .error e => .error e
    | .ok addresses => .ok (parsed,addresses)

/-- `_PinnedResolver.resolve`. -/
def pinnedResolver (lib : NetLib) (hostname : String) (addresses : List String) : Resolver :=
  fun host family =>
    if lib.lower (rstripDots host)≠lib.lower (rstripDots hostname) then
      .error (.osError "resolver hostname mismatch")
    else
      let records := addresses.filter (fun address =>
        match lib.ipAddress address with
        | some ip => family=.unspec || family=(if ip.version6 then .inet6 else .inet)
        | none => false)
      if records=[] then .error (.osError "no validated address matches requested family")
      else .ok records

def urlOrigin (lib : NetLib) (url : String) : Except SafeError Origin :=
  match lib.urlsplit url with
  | none => .error (.unsafeUrl "invalid redirect URL")
  | some parsed =>
    let scheme := lib.casefold parsed.scheme
    let host := lib.casefold (rstripDots (parsed.hostname.getD ""))
    if scheme∉["http","https"] ∨ host="" then .error (.unsafeUrl "invalid redirect URL")
    else .ok (scheme,host,portOrDefault scheme parsed.port)

def headersAfterRedirect (lib : NetLib) (headers : Headers) (currentUrl nextUrl : String) :
    Except SafeError Headers :=
  match urlOrigin lib currentUrl with
  | .error e => .error e
  | .ok current =>
    match urlOrigin lib nextUrl with
    | .error e => .error e
    | .ok next =>
      if current=next then .ok headers
      else .ok (headers.filter (fun h => lib.casefold h.1∈crossOriginHeaderAllowlist))

def publicRequestHeaders (lib : NetLib) (headers : Headers) (binary : Bool) : Headers :=
  let popped := headers.filter (fun h => lib.casefold h.1="accept-encoding")
  let requestedEncoding := match popped.getLast? with
    | some h => lib.casefold (lib.strip h.2)
    | none => ""
  headers.filter (fun h => lib.casefold h.1≠"accept-encoding")++
    [("Accept-Encoding",if binary=true ∨ requestedEncoding="identity" then "identity"
      else "gzip, deflate")]

structure FetchOptions where
  headers : Headers
  binary : Bool
  allowedHosts : Option (List String)
  allowedSchemes : Option (List String)
  allowTransparentProxyFakeDns : Bool

structure Hop where
  url : String
  headers : Headers
  connected : List String

/-- `(parsed.hostname or "").rstrip(".").casefold()`. -/
def hostOf (lib : NetLib) (parsed : SplitResult) : String :=
  lib.casefold (rstripDots (parsed.hostname.getD ""))

/-- Whether a hop may use fake DNS addresses: it has the host of the first. -/
def fakeDnsAt (lib : NetLib) (fakeDnsHostname : Option String) (url : String) :
    Except SafeError Bool :=
  match fakeDnsHostname with
  | none => .ok false
  | some hostname =>
    match validatePublicUrl lib url with
    | .error e => .error e
    | .ok target =>
      if lib.casefold target.scheme≠"https" then
        .error (.unsafeUrl "transparent proxy fake DNS requires HTTPS")
      else .ok (hostOf lib target=hostname)

def admitHop (lib : NetLib) (dns : Dns) (options : FetchOptions) (fakeDnsHostname : Option String)
    (hop : Nat) (url : String) : Except SafeError (SplitResult × List String) :=
  match fakeDnsAt lib fakeDnsHostname url with
  | .error e => .error e
  | .ok fake =>
    match validatePublicFetchTarget lib dns hop url fake with
    | .error e => .error e
    | .ok (parsed,addresses) =>
      if options.allowedSchemes.any (fun schemes =>
          lib.casefold parsed.scheme∉schemes.map lib.casefold) then
        .error (.unsafeUrl "URL scheme is not allowed")
      else if options.allowedHosts.any (fun hosts =>
          hostOf lib parsed∉hosts.map (fun host => lib.casefold (rstripDots host))) then
        .error (.unsafeUrl "URL host is not allowed")
      else .ok (parsed,addresses)

/-- The loop of `_fetch_with_pinned_redirects`. -/
def fetchLoop (lib : NetLib) (dns : Dns) (client : Client B) (options : FetchOptions)
    (fakeDnsHostname : Option String) : Nat → Nat → String → Headers →
    List Hop × Except SafeError (Option B)
  | 0,_,_,_ => ([],.error (.unsafeUrl "too many redirects"))
  | left+1,hop,currentUrl,currentHeaders =>
    match admitHop lib dns options fakeDnsHostname hop currentUrl with
    | .error e => ([],.error e)
    | .ok (parsed,addresses) =>
      let resolver := pinnedResolver lib (parsed.hostname.getD "") addresses
      let answer := client hop resolver currentUrl currentHeaders
      let record : Hop := ⟨currentUrl,currentHeaders,answer.1⟩
      match answer.2 with
      | .error e => ([record],.error e)
      | .ok response =>
        if response.status∈redirectStatuses then
          match response.location with
          | none => ([record],.ok none)
          | some "" => ([record],.ok none)
          | some location =>
            let nextUrl := lib.urljoin currentUrl location
            match headersAfterRedirect lib currentHeaders currentUrl nextUrl with
            | .error e => ([record],.error e)
            | .ok headers =>
              let rest := fetchLoop lib dns client options fakeDnsHostname left (hop+1) nextUrl headers
              (record::rest.1,rest.2)
        else if response.status≠200 then ([record],.ok none)
        else ([record],response.read)

def fetchWithPinnedRedirects (lib : NetLib) (dns : Dns) (client : Client B) (options : FetchOptions)
    (url : String) : List Hop × Except SafeError (Option B) :=
  let headers := publicRequestHeaders lib options.headers options.binary
  if options.allowTransparentProxyFakeDns then
    if options.allowedHosts=none then
      ([],.error (.valueError "transparent proxy fake DNS requires an explicit host allowlist"))
    else
      match validatePublicUrl lib url with
      | .error e => ([],.error e)
      | .ok target =>
        if lib.casefold target.scheme≠"https" then
          ([],.error (.unsafeUrl "transparent proxy fake DNS requires HTTPS"))
        else
          fetchLoop lib dns client options (some (hostOf lib target)) (maxRedirects+1) 0 url headers
  else fetchLoop lib dns client options none (maxRedirects+1) 0 url headers

/-! Addresses -/

variable {lib : NetLib} {dns : Dns} {client : Client B} {options : FetchOptions}
  {fakeDnsHostname : Option String} {hop left port : Nat} {url start host address : String}
  {headers : Headers} {parsed : SplitResult} {addresses : List String} {fake : Bool}

/-- The client connects to what its resolver returned, or to the host of the URL where that is an
address itself. -/
def Pins (lib : NetLib) (client : Client B) : Prop :=
  ∀hop resolver url headers,∀address∈(client hop resolver url headers).1,
    (∃host family records,resolver host family=.ok records ∧ address∈records) ∨
    ∃parsed,lib.urlsplit url=some parsed ∧
      address=lib.lower (rstripDots (parsed.hostname.getD "")) ∧ (lib.ipAddress address).isSome=true

def Answered (dns : Dns) (hop : Nat) (host address : String) : Prop :=
  ∃port infos,dns hop host port=some infos ∧ some address∈infos

theorem mapM_id_some {infos : List (Option String)} {resolved : List String}
    (h : infos.mapM id=some resolved) : infos=resolved.map some := by
  induction infos generalizing resolved with
  | nil =>
    cases h
    rfl
  | cons info infos ih =>
    rw [List.mapM_cons] at h
    obtain ⟨a,ha,hrest⟩ := Option.bind_eq_some_iff.mp h
    obtain ⟨as,has,hpure⟩ := Option.bind_eq_some_iff.mp hrest
    cases hpure
    rw [List.map_cons,←ih has]
    exact congrArg (·::infos) ha

theorem resolvePublicHost_ok (h : resolvePublicHost lib dns hop host port fake=.ok addresses)
    (ha : address∈addresses) : Answered dns hop host address ∧ (isPublicIp lib address=true ∨
      fake=true ∧ isTransparentProxyFakeIp lib address=true) := by
  simp only [resolvePublicHost] at h
  split at h
  · cases h
  · rename_i infos hdns
    split at h
    · cases h
    · rename_i resolved hmap
      split_ifs at h with hbad
      have haddresses : resolved.eraseDups=addresses := Except.ok.inj h
      rw [haddresses] at hbad
      have hmem : address∈resolved := List.mem_eraseDups.mp (haddresses ▸ ha)
      have hinfo : some address∈infos := by
        rw [mapM_id_some hmap]
        exact List.mem_map.mpr ⟨address,hmem,rfl⟩
      refine ⟨⟨port,infos,hdns,hinfo⟩,?_⟩
      have hgood : ¬addresses.any (fun address => !isPublicIp lib address &&
          !(fake && isTransparentProxyFakeIp lib address))=true := fun hx => hbad (Or.inr hx)
      rw [List.any_eq_true] at hgood
      cases hpublic : isPublicIp lib address with
      | true => exact Or.inl rfl
      | false =>
        right
        by_contra hfake
        apply hgood
        refine ⟨address,ha,?_⟩
        rw [hpublic]
        cases hf : fake with
        | false => rfl
        | true => simpa [hf] using hfake

theorem validatePublicUrl_ok (h : validatePublicUrl lib url=.ok parsed) :
    lib.urlsplit url=some parsed ∧
    ∀ip,lib.ipAddress (lib.lower (rstripDots (parsed.hostname.getD "")))=some ip →
      ip.isGlobal=true := by
  simp only [validatePublicUrl] at h
  split at h
  · cases h
  · rename_i p hsplit
    split_ifs at h
    split at h
    · rename_i hnone
      cases h
      refine ⟨hsplit,?_⟩
      intro ip hip
      rw [hnone] at hip
      cases hip
    · rename_i literal hliteral
      split_ifs at h with hglobal
      cases h
      refine ⟨hsplit,?_⟩
      intro ip hip
      rw [hliteral] at hip
      cases hip
      exact hglobal

theorem validatePublicFetchTarget_ok
    (h : validatePublicFetchTarget lib dns hop url fake=.ok (parsed,addresses)) :
    validatePublicUrl lib url=.ok parsed ∧
    ∃port,resolvePublicHost lib dns hop (parsed.hostname.getD "") port fake=.ok addresses := by
  simp only [validatePublicFetchTarget] at h
  split at h
  · cases h
  · rename_i p hp
    split at h
    · cases h
    · rename_i as has
      obtain ⟨rfl,rfl⟩ := Prod.mk.inj (Except.ok.inj h)
      exact ⟨hp,_,has⟩

structure Admitted (lib : NetLib) (dns : Dns) (options : FetchOptions)
    (fakeDnsHostname : Option String) (hop : Nat) (url : String) (parsed : SplitResult)
    (addresses : List String) : Prop where
  valid : validatePublicUrl lib url=.ok parsed
  answered : ∀address∈addresses,Answered dns hop (parsed.hostname.getD "") address
  guarded : ∀address∈addresses,isPublicIp lib address=false →
    isTransparentProxyFakeIp lib address=true ∧ lib.casefold parsed.scheme="https" ∧
      fakeDnsHostname=some (hostOf lib parsed)
  allowed : ∀hosts,options.allowedHosts=some hosts →
    hostOf lib parsed∈hosts.map (fun host => lib.casefold (rstripDots host))

theorem fakeDnsAt_ok (h : fakeDnsAt lib fakeDnsHostname url=.ok true)
    (hv : validatePublicUrl lib url=.ok parsed) :
    lib.casefold parsed.scheme="https" ∧ fakeDnsHostname=some (hostOf lib parsed) := by
  simp only [fakeDnsAt] at h
  split at h
  · cases h
  · rw [hv] at h
    dsimp only at h
    split_ifs at h with hscheme
    · have heq := of_decide_eq_true (Except.ok.inj h)
      exact ⟨not_not.mp hscheme,by rw [heq]⟩

theorem admitHop_ok (h : admitHop lib dns options fakeDnsHostname hop url=.ok (parsed,addresses)) :
    Admitted lib dns options fakeDnsHostname hop url parsed addresses := by
  simp only [admitHop] at h
  split at h
  · cases h
  · rename_i fake hfake
    split at h
    · cases h
    · rename_i p as htarget
      split_ifs at h with hscheme hhost
      obtain ⟨rfl,rfl⟩ := Prod.mk.inj (Except.ok.inj h)
      obtain ⟨hvalid,port,hresolved⟩ := validatePublicFetchTarget_ok htarget
      apply Admitted.mk
      · exact hvalid
      · exact fun address ha => (resolvePublicHost_ok hresolved ha).1
      · intro address ha hprivate
        cases (resolvePublicHost_ok hresolved ha).2 with
        | inl hp => rw [hprivate] at hp; cases hp
        | inr hp =>
          rw [hp.1] at hfake
          exact ⟨hp.2,fakeDnsAt_ok hfake hvalid⟩
      · intro hosts hh
        simpa [hh] using hhost

structure Validated (lib : NetLib) (dns : Dns) (options : FetchOptions) (start : String) (hop : Nat)
    (url address : String) : Prop where
  known : ∃parsed,lib.urlsplit url=some parsed ∧
    (Answered dns hop (parsed.hostname.getD "") address ∨
      address=lib.lower (rstripDots (parsed.hostname.getD "")))
  guarded : isPublicIp lib address=false → ∃parsed first,lib.urlsplit url=some parsed ∧
    lib.urlsplit start=some first ∧ options.allowTransparentProxyFakeDns=true ∧
    isTransparentProxyFakeIp lib address=true ∧ lib.casefold parsed.scheme="https" ∧
    hostOf lib parsed=hostOf lib first ∧ ∃hosts,options.allowedHosts=some hosts ∧
      hostOf lib parsed∈hosts.map (fun host => lib.casefold (rstripDots host))

def FakeHost (lib : NetLib) (options : FetchOptions) (start : String) (h : Option String) : Prop :=
  ∀hostname,h=some hostname → options.allowTransparentProxyFakeDns=true ∧
    options.allowedHosts≠none ∧ ∃first,lib.urlsplit start=some first ∧ hostname=hostOf lib first

theorem pinnedResolver_mem {hostname : String} {family : Family} {records : List String}
    (h : pinnedResolver lib hostname addresses host family=.ok records) (ha : address∈records) :
    address∈addresses := by
  simp only [pinnedResolver] at h
  split_ifs at h
  have hrecords := Except.ok.inj h
  rw [←hrecords] at ha
  exact (List.mem_filter.mp ha).1

theorem Admitted.validated (h : Admitted lib dns options fakeDnsHostname hop url parsed addresses)
    (hpins : Pins lib client) (hfake : FakeHost lib options start fakeDnsHostname)
    (ha : address∈(client hop (pinnedResolver lib (parsed.hostname.getD "") addresses) url
      headers).1) : Validated lib dns options start hop url address := by
  obtain ⟨hsplit,hliteral⟩ := validatePublicUrl_ok h.valid
  obtain ⟨host,family,records,hrecords,hmem⟩ | ⟨p,hp,he,hip⟩ := hpins _ _ _ _ address ha
  · have haddress := pinnedResolver_mem hrecords hmem
    apply Validated.mk
    · exact ⟨parsed,hsplit,Or.inl (h.answered address haddress)⟩
    · intro hprivate
      obtain ⟨hnet,hscheme,hhost⟩ := h.guarded address haddress hprivate
      obtain ⟨hflag,hsome,first,hfirst,hsame⟩ := hfake _ hhost
      obtain ⟨hosts,hhosts⟩ := Option.ne_none_iff_exists'.mp hsome
      exact ⟨parsed,first,hsplit,hfirst,hflag,hnet,hscheme,hsame,hosts,hhosts,h.allowed hosts hhosts⟩
  · rw [hsplit] at hp
    cases hp
    apply Validated.mk
    · exact ⟨parsed,hsplit,Or.inr he⟩
    · intro hprivate
      obtain ⟨ip,hsome⟩ := Option.isSome_iff_exists.mp hip
      have hglobal := hliteral ip (he ▸ hsome)
      have hpublic : isPublicIp lib address=true := by
        rw [isPublicIp,hsome]
        exact hglobal
      rw [hpublic] at hprivate
      cases hprivate

/-! Headers -/

/-- Headers that may go to `url` in a fetch that began at `start`. -/
def Bound (lib : NetLib) (start url : String) (headers : Headers) : Prop :=
  ∀h∈headers,lib.casefold h.1∉crossOriginHeaderAllowlist →
    url=start ∨ ∃o,urlOrigin lib url=.ok o ∧ urlOrigin lib start=.ok o

theorem Bound.next {nextUrl : String} {headers' : Headers} (hb : Bound lib start url headers)
    (h : headersAfterRedirect lib headers url nextUrl=.ok headers') :
    Bound lib start nextUrl headers' := by
  simp only [headersAfterRedirect] at h
  split at h
  · cases h
  · rename_i current hcurrent
    split at h
    · cases h
    · rename_i next hnext
      split_ifs at h with hsame
      · cases h
        intro k hk hs
        right
        obtain rfl | ⟨o,ho,hstart⟩ := hb k hk hs
        · exact ⟨current,hsame ▸ hnext,hcurrent⟩
        · rw [hcurrent] at ho
          cases ho
          exact ⟨current,hsame ▸ hnext,hstart⟩
      · cases h
        intro k hk hs
        exact absurd (of_decide_eq_true (List.mem_filter.mp hk).2) hs

structure HopOk (lib : NetLib) (dns : Dns) (options : FetchOptions) (start : String) (n : Nat)
    (hop : Hop) : Prop where
  addresses : ∀address∈hop.connected,Validated lib dns options start n hop.url address
  headers : Bound lib start hop.url hop.headers

theorem fetchLoop_ok (hpins : Pins lib client) (hfake : FakeHost lib options start fakeDnsHostname)
    (hb : Bound lib start url headers) (n : Nat) (record : Hop)
    (hn : (fetchLoop lib dns client options fakeDnsHostname left hop url headers).1[n]?=some record) :
    HopOk lib dns options start (hop+n) record := by
  induction left generalizing hop url headers n with
  | zero => simp [fetchLoop] at hn
  | succ left ih =>
    simp only [fetchLoop] at hn
    split at hn
    · simp at hn
    · rename_i parsed addresses hadmit
      have hhop : HopOk lib dns options start hop ⟨url,headers,(client hop (pinnedResolver lib
          (parsed.hostname.getD "") addresses) url headers).1⟩ :=
        ⟨fun address ha => (admitHop_ok hadmit).validated hpins hfake ha,hb⟩
      have hsingle {r : Hop} (hr : [r][n]?=some record) (hok : HopOk lib dns options start hop r) :
          HopOk lib dns options start (hop+n) record := by
        cases n with
        | zero =>
          cases hr
          exact hok
        | succ n => simp at hr
      split at hn
      · exact hsingle hn hhop
      · split_ifs at hn
        · split at hn
          · exact hsingle hn hhop
          · exact hsingle hn hhop
          · split at hn
            · exact hsingle hn hhop
            · rename_i headers' hnext
              cases n with
              | zero =>
                cases hn
                exact hhop
              | succ n =>
                have hrest := ih (hb.next hnext) n hn
                rw [show hop+(n+1)=hop+1+n by omega]
                exact hrest
        · exact hsingle hn hhop
        · exact hsingle hn hhop

/-- Whatever the servers and the DNS answer, every hop connects to addresses validated for its own
host and keeps the caller's headers at the first origin. -/
theorem safe_fetch_confined (lib : NetLib) (dns : Dns) (client : Client B) (options : FetchOptions)
    (url : String) (hpins : Pins lib client) (n : Nat) (record : Hop)
    (hn : (fetchWithPinnedRedirects lib dns client options url).1[n]?=some record) :
    HopOk lib dns options url n record := by
  have hstart (headers : Headers) : Bound lib url url headers := fun _ _ _ => Or.inl rfl
  simp only [fetchWithPinnedRedirects] at hn
  split_ifs at hn with hflag hhosts
  · simp at hn
  · split at hn
    · simp at hn
    · rename_i target htarget
      split_ifs at hn
      · simp at hn
      · have hfake : FakeHost lib options url (some (hostOf lib target)) := by
          intro hostname he
          cases he
          exact ⟨hflag,hhosts,target,(validatePublicUrl_ok htarget).1,rfl⟩
        simpa using fetchLoop_ok hpins hfake (hstart _) n record hn
  · have hfake : FakeHost lib options url none := nofun
    simpa using fetchLoop_ok hpins hfake (hstart _) n record hn

def asciiNet : NetLib where
  toStdlib := asciiLib
  lower := asciiLib.casefold
  strip := id
  isDecimal := fun c => '0' ≤ c && c ≤ '9'
  ipAddress := fun address =>
    if address="93.184.216.34" then some ⟨false,true,false⟩
    else if address="198.18.0.7" then some ⟨false,false,true⟩
    else none
  ipv4Address := fun host => if host="93.184.216.34" then some host else none

def sampleDns : Dns := fun hop _ _ =>
  if hop=0 then some [some "198.18.0.7"] else some [some "93.184.216.34",some "93.184.216.34"]

/-- Connects to the first address that the resolver has for the host; the first hop is sent on. -/
def sampleClient : Client String := fun hop resolver url _ =>
  let host := if url="https://two.example/b" then "two.example" else "one.example"
  match resolver host .unspec with
  | .error e => ([],.error e)
  | .ok records => (records.take 1,
      .ok (if hop=0 then ⟨302,some "https://two.example/b",.ok none⟩ else ⟨200,none,.ok (some "done")⟩))

theorem sampleClient_pins : Pins asciiNet sampleClient := by
  intro hop resolver url headers address ha
  left
  simp only [sampleClient] at ha
  split at ha
  · cases ha
  · rename_i records hrecords
    exact ⟨_,.unspec,records,hrecords,List.mem_of_mem_take ha⟩

/-- A fetch behind a transparent proxy: the fake address serves the first host alone, and the token
stays with it. -/
theorem safe_fetch_confined_example :
    ∃first second,(fetchWithPinnedRedirects asciiNet sampleDns sampleClient
      ⟨[("Authorization","token"),("Accept","*/*")],true,some ["one.example","two.example"],none,true⟩
      "https://one.example/a").1=[first,second] ∧
      first.connected=["198.18.0.7"] ∧ second.connected=["93.184.216.34"] ∧
      second.headers=[("Accept","*/*"),("Accept-Encoding","identity")] ∧
      HopOk asciiNet sampleDns
        ⟨[("Authorization","token"),("Accept","*/*")],true,some ["one.example","two.example"],none,true⟩
        "https://one.example/a" 0 first ∧
      HopOk asciiNet sampleDns
        ⟨[("Authorization","token"),("Accept","*/*")],true,some ["one.example","two.example"],none,true⟩
        "https://one.example/a" 1 second := by
  obtain ⟨first,second,htrace,h1,h2,h3⟩ : ∃first second,
      (fetchWithPinnedRedirects asciiNet sampleDns sampleClient
        ⟨[("Authorization","token"),("Accept","*/*")],true,some ["one.example","two.example"],none,
          true⟩ "https://one.example/a").1=[first,second] ∧
      first.connected=["198.18.0.7"] ∧ second.connected=["93.184.216.34"] ∧
      second.headers=[("Accept","*/*"),("Accept-Encoding","identity")] := by
    exact ⟨_,_,rfl,by decide,by decide,by decide⟩
  refine ⟨first,second,htrace,h1,h2,h3,?_,?_⟩
  · apply safe_fetch_confined asciiNet sampleDns sampleClient _ _ sampleClient_pins 0 first
    rw [htrace]
    rfl
  · apply safe_fetch_confined asciiNet sampleDns sampleClient _ _ sampleClient_pins 1 second
    rw [htrace]
    rfl

end XiaoQing.Http
