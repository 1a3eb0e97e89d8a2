import Mxterm.IpAddresses
import Mxterm.TextLines
import Mxterm.Utf8

/-! The tool that reads a web page: the check of the address, and the request that the HTTP client then makes by its own
lookups and redirects. -/
namespace Mxterm.WebFetch

open IpAddr

/-! ## Addresses of pages -/

inductive Host
  | domain (name : String)
  | ipv4 (address : Ipv4Addr)
  | ipv6 (address : Ipv6Addr)
  deriving DecidableEq

/-- `host_str`: an address of version 6 stands in brackets. -/
def Host.hostStr : Host → String
  | .domain name => name
  | .ipv4 address => IpAddr.toString (.v4 address)
  | .ipv6 address => String.ofList ('[' :: (Ipv6Addr.compressed address.segments ++ [']']))

structure Url where
  scheme : String
  username : String
  password : Option String
  host : Option Host
  port : Option ℕ
  text : String
  deriving DecidableEq

def Url.portOrKnownDefault (url : Url) : Option ℕ :=
  url.port <|> match url.scheme with
    | "http" | "ws" => some 80
    | "https" | "wss" => some 443
    | "ftp" => some 21
    | _ => none

structure WebFetchArgs where
  url : String
  startIndex : Option ℕ
  maxChars : Option ℕ
  deriving DecidableEq

structure Response where
  status : ℕ
  statusText : String
  bytes : Except String (List UInt8)

inductive Reply
  | failed (detail : String)
  | redirected (target : Url)
  | answered (response : Response)

/-- What the tool meets: the parsers, the answers of the DNS, one lookup after another, and the replies of the servers,
one request after another. -/
structure Web where
  decodeArgs : String → Except String WebFetchArgs
  parseUrl : String → Except String Url
  buildClient : Except String Unit
  lookup : ℕ → String → ℕ → Except String (List IpAddr)
  reply : ℕ → Url → Reply

/-- Which of the addresses of a host the client opens connections to, at each of its requests. -/
structure Dialer where
  opened : ℕ → List IpAddr → List IpAddr
  opened_mem : ∀ request addresses, ∀ ip ∈ opened request addresses, ip ∈ addresses

/-! ## The check -/

def maxResponseBytes : ℕ := 2 * 1024 * 1024

def defaultFetchChars : ℕ := 16000

def maxFetchChars : ℕ := 40000

def maxFetchUrlChars : ℕ := 2048

def privateTarget (detail : String) : AppError :=
  ⟨"ai_web_fetch_private_target","网页读取不允许访问本机或内网地址。",detail,true⟩

def isPrivateIp : IpAddr → Bool
  | .v4 value => value.isPrivate || value.isLoopback || value.isLinkLocal || value.isUnspecified
  | .v6 value => value.isLoopback || value.isUnspecified || value.isMulticast || value.isUniqueLocal ||
      value.isUnicastLinkLocal

def endsWith (s pattern : String) : Bool := pattern.toList.isSuffixOf s.toList

def localName (host : String) : Bool :=
  host = "" || host = "localhost" || endsWith host ".local" || endsWith host ".localhost"

def validatePublicUrl (web : Web) (value : String) : Except AppError Url :=
  if maxFetchUrlChars < value.length then
    .error ⟨"ai_web_fetch_url_too_long","网页地址过长。","maximum 2048 characters",true⟩
  else
    match web.parseUrl value with
    | .error detail => .error ⟨"ai_web_fetch_url_invalid","网页地址无效。",detail,true⟩
    | .ok parsed =>
      let host := Text.toAsciiLowercase ((parsed.host.map Host.hostStr).getD "")
      if parsed.scheme ≠ "http" ∧ parsed.scheme ≠ "https" then
        .error ⟨"ai_web_fetch_scheme_invalid","网页读取只支持 HTTP 或 HTTPS 地址。",parsed.scheme,true⟩
      else if parsed.username ≠ "" ∨ parsed.password.isSome then
        .error ⟨"ai_web_fetch_credentials_unsupported","网页读取地址不能携带用户名或密码。",
          "userinfo in URL is not allowed",true⟩
      else if localName host then .error (privateTarget host)
      else if (parse? host).any isPrivateIp then .error (privateTarget host)
      else .ok parsed

/-- The first lookup of a call; an address in the place of a name is not looked up. -/
def ensurePublicDnsTarget (web : Web) (url : Url) : Except AppError Unit :=
  match url.host with
  | none => .error (privateTarget "host is missing")
  | some host =>
    if (parse? host.hostStr).isSome then .ok ()
    else
      match web.lookup 0 host.hostStr (url.portOrKnownDefault.getD 443) with
      | .error detail => .error ⟨"ai_web_fetch_dns_failed","网页地址解析失败。",detail,true⟩
      | .ok addresses =>
        match addresses.find? isPrivateIp with
        | some address => .error (privateTarget address.toString)
        | none =>
          if addresses = [] then
            .error ⟨"ai_web_fetch_dns_failed","网页地址没有可用的公网地址。",host.hostStr,true⟩
          else .ok ()

/-- What `fetch` does before it makes a client. -/
def checkTarget (web : Web) (arguments : String) : Except AppError (WebFetchArgs × Url) :=
  match web.decodeArgs arguments with
  | .error detail => .error ⟨"ai_web_fetch_invalid","网页读取参数无效。",detail,true⟩
  | .ok args =>
    match validatePublicUrl web (Text.trim args.url) with
    | .error error => .error error
    | .ok parsed => (ensurePublicDnsTarget web parsed).map fun _ => (args,parsed)

/-! ## The client -/

/-- The default of the client. -/
def maxRedirects : ℕ := 10

/-- The addresses the client finds for a host: an address is its own, a name is looked up. -/
def resolve (web : Web) (request : ℕ) (url : Url) : Except String (List IpAddr) :=
  match url.host with
  | none => .ok []
  | some (.ipv4 address) => .ok [.v4 address]
  | some (.ipv6 address) => .ok [.v6 address]
  | some (.domain name) => web.lookup request name (url.portOrKnownDefault.getD 443)

/-- `send`: the response, and the addresses to which connections were opened on the way. -/
def send (web : Web) (dialer : Dialer) : ℕ → ℕ → Url → Except String Response × List IpAddr
  | left, request, url =>
    match resolve web request url with
    | .error detail => (.error detail,[])
    | .ok addresses =>
      let opened := dialer.opened request addresses
      match web.reply request url with
      | .failed detail => (.error detail,opened)
      | .answered response => (.ok response,opened)
      | .redirected target =>
        match left with
        | 0 => (.error "error following redirect: too many redirects",opened)
        | left + 1 =>
          let rest := send web dialer left (request + 1) target
          (rest.1,opened ++ rest.2)

/-! ## The text of a page -/

def readLimitedBody (response : Response) (tooLargeCode : String) : Except AppError (List UInt8) :=
  match response.bytes with
  | .error detail => .error ⟨"ai_web_response_read_failed","联网响应读取失败。",detail,true⟩
  | .ok bytes =>
    if maxResponseBytes < bytes.length then
      .error ⟨tooLargeCode,"联网响应过大，已停止读取。",
        "response bytes=" ++ toString bytes.length ++ " limit=2097152",true⟩
    else .ok bytes

def find? (pattern : List Char) : List Char → Option ℕ
  | [] => if pattern = [] then some 0 else none
  | c :: cs => if pattern.isPrefixOf (c :: cs) then some 0 else (find? pattern cs).map (· + 1)

/-- `replace`; the number counts the characters of an occurrence that are still to be left out. -/
def replace (pattern replacement : List Char) : ℕ → List Char → List Char
  | _, [] => []
  | skip + 1, _ :: cs => replace pattern replacement skip cs
  | 0, c :: cs =>
    if pattern.isPrefixOf (c :: cs) then replacement ++ replace pattern replacement (pattern.length - 1) cs
    else c :: replace pattern replacement 0 cs

def htmlEntities : List (String × String) :=
  [("&amp;","&"),("&quot;","\""),("&#39;","'"),("&lt;","<"),("&gt;",">"),("&nbsp;"," ")]

def decodeHtmlEntities (value : List Char) : List Char :=
  htmlEntities.foldl (fun value entity => replace entity.1.toList entity.2.toList 0 value) value

/-- The loop of `remove_html_blocks`, with enough fuel for every character. -/
def removeBlocksFrom (opening closing : List Char) : ℕ → List Char → List Char
  | 0, value => value
  | fuel + 1, value =>
    match find? opening (value.map Char.toLower) with
    | none => value
    | some start =>
      let inner := value.drop start
      match find? closing (inner.map Char.toLower) with
      | none => value.take start
      | some stop => value.take start ++ removeBlocksFrom opening closing fuel (inner.drop (stop + closing.length))

def removeHtmlBlocks (value : List Char) (tagName : String) : List Char :=
  removeBlocksFrom ("<" ++ tagName).toList ("</" ++ tagName).toList value.length value

def breaksLine (tag : List Char) : Bool :=
  (Text.splitWhitespace (String.ofList (tag.dropWhile (· = '/')))).headD "" ∈
    ["br","p","div","li","h1","h2","h3","tr"]

/-- The characters outside of tags, with a newline for each tag that ends a line. -/
def outsideTags : Bool → List Char → List Char → List Char
  | _, _, [] => []
  | inTag, tag, c :: cs =>
    if c = '<' then outsideTags true [] cs
    else if inTag then
      if c = '>' then (if breaksLine tag then ['\n'] else []) ++ outsideTags false tag cs
      else outsideTags true (tag ++ [c]) cs
    else c :: outsideTags false tag cs

def htmlToText (value : String) : String :=
  let value := removeHtmlBlocks value.toList "script"
  let value := removeHtmlBlocks value "style"
  let value := removeHtmlBlocks value "noscript"
  let text := decodeHtmlEntities (outsideTags false [] value)
  Text.join (((Text.lines (String.ofList text)).map Text.trim).filter (· ≠ ""))

def saturatingAdd (a b : ℕ) : ℕ := min (a + b) (2 ^ 64 - 1)

/-- What is told of a page: the part of its text that was asked for. -/
def contentsOf (args : WebFetchArgs) (url : Url) (response : Response) : Except AppError String :=
  if response.status < 200 ∨ 300 ≤ response.status then
    .error ⟨"ai_web_fetch_http","网页读取服务返回错误。","GET " ++ url.text ++ " -> " ++ response.statusText,true⟩
  else
    match readLimitedBody response "ai_web_fetch_response_too_large" with
    | .error error => .error error
    | .ok body =>
      let raw := Utf8.decodeLossy body
      let text := if Text.contains raw "<html" || Text.contains raw "<HTML" then htmlToText raw else raw
      let startIndex := args.startIndex.getD 0
      let maxChars := max 200 (min (args.maxChars.getD defaultFetchChars) maxFetchChars)
      let content := (text.toList.drop startIndex).take maxChars
      let next := saturatingAdd startIndex content.length
      let output := "Contents of " ++ url.text ++ ":\n" ++ String.ofList content
      .ok (if next < text.length then
        output ++ "\n\n<error>Content truncated. Call the web_fetch tool with start_index of " ++ toString next ++
          " to continue.</error>"
      else output)

/-! ## The tool -/

/-- The result of the tool, and the addresses to which connections were opened. -/
def fetch (web : Web) (dialer : Dialer) (arguments : String) : Except AppError String × List IpAddr :=
  match checkTarget web arguments with
  | .error error => (.error error,[])
  | .ok (args,url) =>
    match web.buildClient with
    | .error detail => (.error ⟨"ai_web_client_init_failed","联网工具初始化失败。",detail,true⟩,[])
    | .ok _ =>
      let (response,opened) := send web dialer maxRedirects 1 url
      match response with
      | .error detail => (.error ⟨"ai_web_fetch_failed","网页读取失败。",detail,true⟩,opened)
      | .ok response => (contentsOf args url response,opened)

/-! ## Where the client goes -/

/-- The requests that a client makes which follows where it is sent, each with its number. -/
def requests (web : Web) : ℕ → ℕ → Url → List (ℕ × Url)
  | left, request, url =>
    (request,url) :: match resolve web request url with
    | .error _ => []
    | .ok _ =>
      match web.reply request url with
      | .redirected target =>
        match left with
        | 0 => []
        | left + 1 => requests web left (request + 1) target
      | _ => []

def found (web : Web) (visit : ℕ × Url) : List IpAddr :=
  match resolve web visit.1 visit.2 with
  | .error _ => []
  | .ok addresses => addresses

variable {url : Url} {ip : IpAddr}

/-- Connections are opened only to what the requests of the client find. -/
theorem mem_send (web : Web) (dialer : Dialer) {left request : ℕ} (h : ip ∈ (send web dialer left request url).2) :
    ∃ visit ∈ requests web left request url, ip ∈ found web visit := by
  induction left generalizing request url with
  | zero =>
    rw [send] at h
    rw [requests]
    refine ⟨(request,url),List.mem_cons_self,?_⟩
    rw [found]
    cases hresolve : resolve web request url with
    | error detail => simp [hresolve] at h
    | ok addresses =>
      have hopened : ip ∈ dialer.opened request addresses := by
        cases hreply : web.reply request url <;> simpa [hresolve,hreply] using h
      exact dialer.opened_mem request addresses ip hopened
  | succ left ih =>
    rw [send] at h
    rw [requests]
    cases hresolve : resolve web request url with
    | error detail => simp [hresolve] at h
    | ok addresses =>
      have hfirst (hopened : ip ∈ dialer.opened request addresses) : ip ∈ found web (request,url) := by
        rw [found,hresolve]
        exact dialer.opened_mem request addresses ip hopened
      simp only [hresolve] at h
      cases hreply : web.reply request url with
      | failed | answered => exact ⟨(request,url),List.mem_cons_self,hfirst (by simpa [hreply] using h)⟩
      | redirected target =>
        simp only [hreply,List.mem_append] at h
        rcases h with h | h
        · exact ⟨(request,url),List.mem_cons_self,hfirst h⟩
        · obtain ⟨visit,hvisit,hip⟩ := ih h
          exact ⟨visit,List.mem_cons_of_mem _ hvisit,hip⟩

/-- The client that opens a connection to every address it finds. -/
def dialAll : Dialer where
  opened _ addresses := addresses
  opened_mem _ _ _ h := h

theorem mem_send_dialAll (web : Web) {left request : ℕ} {visit : ℕ × Url}
    (hvisit : visit ∈ requests web left request url) (hip : ip ∈ found web visit) :
    ip ∈ (send web dialAll left request url).2 := by
  induction left generalizing request url with
  | zero =>
    rw [requests] at hvisit
    have hself : visit = (request,url) := by
      cases hresolve : resolve web request url with
      | error detail => simpa [hresolve] using hvisit
      | ok addresses => cases hreply : web.reply request url <;> simpa [hresolve,hreply] using hvisit
    subst hself
    rw [found] at hip
    rw [send]
    cases hresolve : resolve web request url with
    | error detail => simp [hresolve] at hip
    | ok addresses => cases hreply : web.reply request url <;> simpa [dialAll,hresolve] using hip
  | succ left ih =>
    rw [requests] at hvisit
    rw [send]
    cases hresolve : resolve web request url with
    | error detail =>
      simp only [hresolve,List.mem_singleton] at hvisit
      simp [hvisit,found,hresolve] at hip
    | ok addresses =>
      simp only [hresolve,List.mem_cons] at hvisit
      have hself (h : visit = (request,url)) : ip ∈ addresses := by simpa [h,found,hresolve] using hip
      cases hreply : web.reply request url with
      | failed | answered => exact hself (by simpa [hreply] using hvisit)
      | redirected target =>
        simp only [hreply] at hvisit
        rcases hvisit with h | h
        · exact List.mem_append_left _ (hself h)
        · exact List.mem_append_right _ (ih h)

/-! ## What the check is good for -/

theorem isPrivateIp_v4 (ip : Ipv4Addr) : isPrivateIp (.v4 ip) = true ↔ Internal (.v4 ip) := by
  simp [isPrivateIp,Internal,InternalV4,or_assoc]

theorem validatePublicUrl_address {web : Web} {value : String} (h : validatePublicUrl web value = .ok url) :
    (parse? (Text.toAsciiLowercase ((url.host.map Host.hostStr).getD ""))).any isPrivateIp = false := by
  unfold validatePublicUrl at h
  split_ifs at h
  cases hparse : web.parseUrl value with
  | error detail => simp [hparse] at h
  | ok parsed =>
    simp only [hparse] at h
    split_ifs at h with _ _ _ haddress
    cases h
    exact eq_false_of_ne_true haddress

/-- A URL with an address of version 4 in the place of a name is let through only for an address that leads out. -/
theorem validatePublicUrl_ipv4 {web : Web} {value : String} (h : validatePublicUrl web value = .ok url)
    {ip : Ipv4Addr} (hhost : url.host = some (.ipv4 ip)) : ¬ Internal (.v4 ip) := by
  intro hinternal
  have haddress := validatePublicUrl_address h
  rw [hhost,Option.map_some,Option.getD_some,Host.hostStr,toAsciiLowercase_v4,parse?_v4,Option.any_some,
    (isPrivateIp_v4 ip).mpr hinternal] at haddress
  exact absurd haddress (by decide)

variable {arguments : String} {args : WebFetchArgs}

theorem checkTarget_ipv4 {web : Web} (h : checkTarget web arguments = .ok (args,url)) {ip : Ipv4Addr}
    (hhost : url.host = some (.ipv4 ip)) : ¬ Internal (.v4 ip) := by
  unfold checkTarget at h
  split at h
  · cases h
  · split at h
    · cases h
    · rename_i parsed hvalid
      cases hensure : ensurePublicDnsTarget web parsed with
      | error error => simp [hensure,Except.map] at h
      | ok _ =>
        simp only [hensure,Except.map,Except.ok.injEq,Prod.mk.injEq] at h
        rw [h.2] at hvalid
        exact validatePublicUrl_ipv4 hvalid hhost

/-- The host of a request leads out: an address by itself, a name by the answer to the client's own lookup. -/
def LeadsOut (web : Web) (visit : ℕ × Url) : Prop :=
  match visit.2.host with
  | none => True
  | some (.ipv4 ip) => ¬ Internal (.v4 ip)
  | some (.ipv6 ip) => ¬ Internal (.v6 ip)
  | some (.domain name) =>
    ∀ addresses, web.lookup visit.1 name (visit.2.portOrKnownDefault.getD 443) = .ok addresses →
      ∀ ip ∈ addresses, ¬ Internal ip

theorem leadsOut_iff (web : Web) (visit : ℕ × Url) : LeadsOut web visit ↔ ∀ ip ∈ found web visit, ¬ Internal ip := by
  unfold LeadsOut found resolve
  split
  · simp
  · simp
  · simp
  · rename_i name _
    cases hlookup : web.lookup visit.1 name (visit.2.portOrKnownDefault.getD 443) <;> simp

/-- What the check leaves open when it lets a URL through: how the name is answered the second time, addresses of
version 6 in the URL, and where the servers send the client. -/
structure Harmless (web : Web) (url : Url) : Prop where
  host : (∃ ip, url.host = some (.ipv4 ip)) ∨ LeadsOut web (1,url)
  redirects : ∀ visit ∈ (requests web maxRedirects 1 url).tail, LeadsOut web visit

theorem harmless_iff {web : Web} (h : checkTarget web arguments = .ok (args,url)) :
    Harmless web url ↔ ∀ visit ∈ requests web maxRedirects 1 url, LeadsOut web visit := by
  have hfirst : LeadsOut web (1,url) ↔ (∃ ip, url.host = some (.ipv4 ip)) ∨ LeadsOut web (1,url) := by
    constructor
    · exact Or.inr
    · rintro (⟨ip,hhost⟩ | hout)
      · simpa [LeadsOut,hhost] using checkTarget_ipv4 h hhost
      · exact hout
  rw [requests,List.forall_mem_cons,hfirst]
  constructor
  · intro hharmless
    have hredirects := hharmless.redirects
    rw [requests] at hredirects
    exact ⟨hharmless.host,hredirects⟩
  · intro hall
    refine ⟨hall.1,?_⟩
    rw [requests]
    exact hall.2

theorem fetch_opened {web : Web} {dialer : Dialer} (h : ip ∈ (fetch web dialer arguments).2) :
    ∃ args url, checkTarget web arguments = .ok (args,url) ∧
      web.buildClient = .ok () ∧ ip ∈ (send web dialer maxRedirects 1 url).2 := by
  unfold fetch at h
  cases hcheck : checkTarget web arguments with
  | error error => simp [hcheck] at h
  | ok target =>
    cases hclient : web.buildClient with
    | error detail => simp [hcheck,hclient] at h
    | ok _ =>
      refine ⟨target.1,target.2,rfl,rfl,?_⟩
      simp only [hcheck,hclient] at h
      split at h <;> exact h

theorem fetch_sends {web : Web} (hcheck : checkTarget web arguments = .ok (args,url))
    (hclient : web.buildClient = .ok ()) (dialer : Dialer) :
    (fetch web dialer arguments).2 = (send web dialer maxRedirects 1 url).2 := by
  simp only [fetch,hcheck,hclient]
  split <;> rfl

namespace Redirected

def page : Url where
  scheme := "http"
  username := ""
  password := none
  host := some (.domain "example.com")
  port := none
  text := "http://example.com/"

def inner : Url where
  scheme := "http"
  username := ""
  password := none
  host := some (.ipv4 ⟨127,0,0,1⟩)
  port := some 8080
  text := "http://127.0.0.1:8080/"

/-- A name that has a public address at every lookup, whose server sends the client to the loopback address. -/
def web : Web where
  decodeArgs arguments := .ok ⟨arguments,none,none⟩
  parseUrl text := if text = page.text then .ok page else .error "relative URL without a base"
  buildClient := .ok ()
  lookup _ _ _ := .ok [.v4 ⟨93,184,216,34⟩]
  reply _ url := if url = page then .redirected inner else .failed "connection closed"

end Redirected

end Mxterm.WebFetch
