import Millennium.Engine.FrontendExpression
import Millennium.Engine.ThemeUrl
import Millennium.Lib.Outcome
import Millennium.Lib.StateExcept
import Millennium.Lib.Utf8
import Mathlib.Data.List.DropRight

/-!
# Paused requests

The handler of `Fetch.requestPaused` serves the files of themes and plugins, adds the hooks of
themes to documents, and lets everything else go on. Where it throws before the request is released,
the page waits for ever. Files, producers, hooks and response bodies are outcomes that it runs into.
-/

namespace Millennium.Engine

open Bytes StateExcept LexicalPath Except Json

inductive HookError where
  | type (error : TypeError)
  | type305
  /-- `operator[]` of a constant object without the key, which has no defined meaning. -/
  | noSuchKey
  | type316
  | thrown (message : String)
  deriving Repr, DecidableEq

def thrown {α : Type} : Except String α → Except HookError α := Except.mapError .thrown

def typed {α : Type} : Except TypeError α → Except HookError α := Except.mapError .type

def jsonAt (j : Json) (key : String) : Except HookError Json :=
  match j with
  | .object fields =>
    match fields.lookup (ascii key) with
    | some field => .ok field
    | none => .error .noSuchKey
  | _ => .error .type305

def getHttpCode (truncate : UInt64 → Int) : Json → Except TypeError Int
  | .integer n => .ok (toInt32 n)
  | .unsigned n => .ok (toInt32 n)
  | .float bits => .ok (toInt32 (truncate bits))
  | _ => .error .type302

def getBoolean : Json → Except TypeError Bool
  | .boolean b => .ok b
  | _ => .error .type302

mutual

/-- `dump` succeeds: every text is UTF-8. -/
def dumps : Json → Bool
  | .string s => s.toByteArray.validateUTF8
  | .array items => dumpsItems items
  | .object fields => dumpsFields fields
  | _ => true

def dumpsItems : List Json → Bool
  | [] => true
  | item :: rest => dumps item && dumpsItems rest

def dumpsFields : List (Octets × Json) → Bool
  | [] => true
  | (key, field) :: rest => key.toByteArray.validateUTF8 && dumps field && dumpsFields rest

end

inductive FetchMethod where
  | continueResponse
  | fulfillRequest
  | getResponseBody
  deriving Repr, DecidableEq

structure Sent where
  method : FetchMethod
  params : List (Octets × Json)

abbrev Handling := EStateM HookError (List Sent)

/-- `send_host`, which dumps the message before anything else. -/
def sendHost (method : FetchMethod) (params : List (Octets × Json)) : Handling Unit := do
  if dumps (.object params) then modify (· ++ [⟨method, params⟩]) else throw .type316

inductive FileType where
  | css | js | json | ttf | otf | woff | woff2 | png | jpeg | jpg | gif | webp | svg | html | unknown
  deriving Repr, DecidableEq

/-- `file_types`: the type, the extension, the MIME type, and whether it is binary. -/
def fileTypes : List (FileType × String × String × Bool) :=
  [(.css, ".css", "text/css", false), (.js, ".js", "application/javascript", false),
    (.json, ".json", "application/json", false), (.ttf, ".ttf", "font/ttf", true),
    (.otf, ".otf", "font/otf", true), (.woff, ".woff", "font/woff", true),
    (.woff2, ".woff2", "font/woff2", true), (.png, ".png", "image/png", true),
    (.jpeg, ".jpeg", "image/jpeg", true), (.jpg, ".jpg", "image/jpeg", true),
    (.gif, ".gif", "image/gif", true), (.webp, ".webp", "image/webp", true),
    (.svg, ".svg", "image/svg+xml", true), (.html, ".html", "text/html", false)]

/-- `path.extension()`: of the last component, from its last dot on, unless that begins it. -/
def extension (path : List Char) : List Char :=
  let filename := path.rtakeWhile (· ≠ '/')
  let stem := filename.rdropWhile (· ≠ '.')
  if filename = dotdot ∨ stem.length ≤ 1 then [] else '.' :: filename.rtakeWhile (· ≠ '.')

def getFileType (path : List Char) : FileType :=
  match fileTypes.find? fun entry => entry.2.1.toList = extension path with
  | some entry => entry.1
  | none => .unknown

def getMimeStr (type : FileType) : String :=
  match fileTypes.find? fun entry => entry.1 = type with
  | some entry => entry.2.2.1
  | none => "text/plain"

def isBinFile (type : FileType) : Bool :=
  match fileTypes.find? fun entry => entry.1 = type with
  | some entry => entry.2.2.2
  | none => false

def pathChars (s : Octets) : List Char := s.map fun b => Char.ofNat b.toNat

def pathOctets (path : List Char) : Octets := path.map fun c => UInt8.ofNat c.toNat

inductive TagType where
  | stylesheet
  | javascript
  deriving Repr, DecidableEq

structure Hook (Pattern : Type) where
  path : Octets
  urlPattern : Pattern
  type : TagType

structure ProcessedHooks where
  css : Octets
  preloads : Octets
  scripts : Octets

def ProcessedHooks.isEmpty (h : ProcessedHooks) : Bool :=
  h.css.isEmpty && h.preloads.isEmpty && h.scripts.isEmpty

def ProcessedHooks.addStylesheet (h : ProcessedHooks) (href : Octets) : ProcessedHooks :=
  { h with css := h.css ++ ascii "<link rel=\"stylesheet\" href=\"" ++ href ++ ascii "\">\n" }

def ProcessedHooks.addScriptModule (h : ProcessedHooks) (href : Octets) : ProcessedHooks :=
  { h with
    preloads := h.preloads ++ ascii "<link rel=\"modulepreload\" href=\"" ++ href ++
      ascii "\" fetchpriority=\"high\">\n"
    scripts := h.scripts ++ ascii "<script type=\"module\" src=\"" ++ href ++
      ascii "\"></script>\n" }

def ProcessedHooks.addInlineStyle (h : ProcessedHooks) (id : String) (css : Octets) :
    ProcessedHooks :=
  { h with
    css := h.css ++ ascii "<style id=\"" ++ ascii id ++ ascii "\">" ++ css ++ ascii "</style>\n" }

def hexUpper (c : UInt8) : Octets :=
  (Nat.toDigits 16 c.toNat).map fun d => UInt8.ofNat d.toUpper.toNat

def encodeUrl (value : Octets) : Octets :=
  value.flatMap fun c =>
    if (Char.ofNat c.toNat).isAlphanum ∨ c ∈ ascii "-_.~/" then [c]
    else if c = 0x20 then ascii "+"
    else ascii "%" ++ hexUpper c

def platEncodeUrl (path : Octets) : Octets :=
  encodeUrl (match path with
    | 0x2F :: rest => rest
    | _ => path)

/-- `inject_into_document_head`: in front of the first `</head>`, where there is one. -/
def injectIntoDocumentHead (content : Octets) : Octets → Octets
  | [] => []
  | c :: rest =>
    if ascii "</head>" <+: c :: rest then content ++ c :: rest
    else c :: injectIntoDocumentHead content rest

structure Base64Reader where
  out : Octets
  val : Nat
  valb : Int
  deriving Repr, DecidableEq

/-- `Base64Decode`, which stops at the first other character. `val` keeps 32 bits. -/
def base64Decode : Octets → Base64Reader → Octets
  | [], r => r.out
  | c :: rest, r =>
    match Base64.bitsOf c with
    | none => r.out
    | some bits =>
      let val := (r.val * 64 + bits) % 2 ^ 32
      let valb := r.valb + 6
      if 0 ≤ valb then
        base64Decode rest ⟨r.out ++ [UInt8.ofNat (val >>> valb.toNat)], val, valb - 8⟩
      else base64Decode rest ⟨r.out, val, valb⟩

structure HookWorld (Pattern : Type) where
  /-- The producers of virtual resources by their URL, with what they do when called. -/
  virtualResources : Octets → Option (Except String Octets)
  internalData : Octets → Option (Except String Octets)
  millenniumPath : List Char
  isOpen : List Char → Bool
  readText : List Char → Except String Octets
  readBytes : List Char → Except String Octets
  parseUrl : Octets → Option (Octets × Octets)
  hooks : List (Hook Pattern)
  regexMatch : Octets → Pattern → Except String Bool
  /-- The provider of the colors and the conditions of a theme, when there is one. -/
  dynamicCss : Option (Except String (Octets × Octets))
  responseBody : Except String Json
  truncate : UInt64 → Int

section
variable {Pattern : Type} (w : HookWorld Pattern)

structure VfsReply where
  fileType : FileType
  responseCode : Int
  responseMessage : Octets
  content : Octets

def virtualContent (url : Octets) : Octets :=
  match w.virtualResources url with
  | some (.ok data) => base64Encode data
  | _ => []

/-- The content that Millennium carries with it. The exception of a producer is not caught. -/
def internalContent (url : Octets) : Except HookError Octets :=
  match w.internalData url with
  | some outcome => (thrown outcome).map base64Encode
  | none => .ok []

def diskReply (url : Octets) : Except HookError VfsReply := do
  let path := pathFromUrl w.millenniumPath (pathChars url)
  let opened := w.isOpen path
  let fileType := getFileType path
  let responseCode := if opened then 200 else 404
  let responseMessage :=
    if opened then ascii "OK millennium" else ascii "millennium couldn't read " ++ pathOctets path
  if isBinFile fileType then
    match w.readBytes path with
    | .ok data => return ⟨fileType, responseCode, responseMessage, Base64.encode data⟩
    | .error _ => return ⟨fileType, responseCode, responseMessage, []⟩
  else
    -- nothing is read from a stream that is not open
    let data ← if opened then thrown (w.readText path) else .ok []
    return ⟨fileType, responseCode, responseMessage, base64Encode data⟩

def vfsReply (url : Octets) : Except HookError VfsReply := do
  let okReply (content : Octets) : VfsReply := ⟨.js, 200, ascii "OK millennium", content⟩
  if virtualContent w url ≠ [] then return okReply (virtualContent w url)
  let content ← internalContent w url
  if content ≠ [] then return okReply content
  diskReply w url

def makeHeaders (headers : List (String × String)) : Json :=
  .array (headers.map fun (name, value) =>
    .object [(ascii "name", .string (ascii name)), (ascii "value", .string (ascii value))])

def vfsParams (requestId : Json) (reply : VfsReply) : List (Octets × Json) :=
  [(ascii "responseCode", .integer reply.responseCode), (ascii "requestId", requestId),
    (ascii "responseHeaders", makeHeaders [("Access-Control-Allow-Origin", "*"),
      ("Content-Type", getMimeStr reply.fileType)]),
    (ascii "responsePhrase", .string reply.responseMessage), (ascii "body", .string reply.content)]

def requestUrl (message : Json) : Except HookError Octets := do
  typed (← jsonAt (← jsonAt message "request") "url").getString

def isVfsRequest (url : Octets) : Bool :=
  ftpUrls.any fun addr => (splitFirst addr (pathChars url)).isSome

def vfsRequestHandler (message : Json) : Handling Unit := do
  let url ← lift (requestUrl message)
  let reply ← lift (vfsReply w url)
  let requestId ← lift (jsonAt message "requestId")
  sendHost .fulfillRequest (vfsParams requestId reply)

def isDomainMatch (host domain : Octets) : Bool :=
  host == domain ||
    (decide (domain.length < host.length) && host[host.length - domain.length - 1]? == some 0x2E &&
      domain.isSuffixOf host)

def lowered (s : Octets) : Octets :=
  s.map fun c => UInt8.ofNat (Char.ofNat c.toNat).toLower.toNat

/-- `target_url`: the scheme and the host, in lower case, without the dots at the end. -/
def targetUrl (url : Octets) : Option (Octets × Octets) :=
  (w.parseUrl url).map fun (scheme, host) => (lowered scheme, lowered (host.rdropWhile (· = 0x2E)))

def forbiddenDomains : List Octets :=
  ["paypal.com", "paypalobjects.com", "recaptcha.net", "youtube.com", "youtube-nocookie.com",
    "youtu.be", "ytimg.com", "googlevideo.com", "googleusercontent.com", "studioyoutube.com",
    "chromewebstore.google.com"].map ascii

def isSafeForNetworkHooks (url : Octets) : Bool :=
  match targetUrl w url with
  | none => false
  | some (scheme, host) =>
    (scheme == ascii "http" || scheme == ascii "https") &&
      forbiddenDomains.all fun domain => !isDomainMatch host domain

def isSafeForJs (url : Octets) : Bool :=
  match targetUrl w url with
  | none => false
  | some (_, host) =>
    !isDomainMatch host (ascii "checkout.steampowered.com") && isSafeForNetworkHooks w url

def applyHook (url : Octets) (st : ProcessedHooks × Bool) (hook : Hook Pattern) :
    Except HookError (ProcessedHooks × Bool) := do
  if !(← thrown (w.regexMatch url hook.urlPattern)) then return st
  if hook.type = .javascript ∧ isSafeForJs w url = false then return st
  let href := pathOctets themesUrl ++ platEncodeUrl hook.path
  match hook.type with
  | .stylesheet => return (st.1.addStylesheet href, true)
  | .javascript => return (st.1.addScriptModule href, true)

def applyUserWebkitHooks (url : Octets) : Except HookError ProcessedHooks := do
  let (result, anyHookMatched) ← w.hooks.foldlM (applyHook w url) (⟨[], [], []⟩, false)
  match w.dynamicCss with
  | none => return result
  | some provider =>
    if !anyHookMatched then return result
    let (rootColors, sliderCss) ← thrown provider
    let result := if rootColors ≠ [] then result.addInlineStyle "RootColors" rootColors else result
    return if sliderCss ≠ [] then result.addInlineStyle "MillenniumSliderConditions" sliderCss
      else result

def redirectCodes : List Int := [303, 301, 302, 307, 308]

def decodedBody (response : Json) : Except HookError Octets := do
  let responseBody ← typed (response.value getString (ascii "body") [])
  let isBase64 ← typed (response.value getBoolean (ascii "base64Encoded") false)
  return if isBase64 then base64Decode responseBody ⟨[], 0, -8⟩ else responseBody

def patchedParams (message : Json) (requestId : Octets) (statusCode : Int) (hooks : ProcessedHooks)
    (body : Octets) : Except HookError (List (Octets × Json)) := do
  let patchedContent := injectIntoDocumentHead (hooks.preloads ++ hooks.css ++ hooks.scripts) body
  let responseMessage ← typed
    (message.value getString (ascii "responseStatusText") (ascii "OK"))
  let responseHeaders ← typed (message.valueJson (ascii "responseHeaders") (.array []))
  return [(ascii "requestId", .string requestId), (ascii "responseCode", .integer statusCode),
    (ascii "responseHeaders", responseHeaders),
    (ascii "responsePhrase", .string (if responseMessage = [] then ascii "OK" else responseMessage)),
    (ascii "body", .string (base64Encode patchedContent))]

def patchDocument (message : Json) (requestId : Octets) (params : List (Octets × Json))
    (url : Octets) (statusCode : Int) (hooks : ProcessedHooks) : Handling Unit := do
  sendHost .getResponseBody params
  let response ← lift (thrown w.responseBody)
  let body ← lift (decodedBody response)
  if url = [] ∨ body = [] then sendHost .continueResponse params
  else
    let fulfill ← lift (patchedParams message requestId statusCode hooks body)
    sendHost .fulfillRequest fulfill

def documentHandler (message : Json) (requestId : Octets) (params : List (Octets × Json))
    (url : Octets) : Handling Unit := do
  let status ← lift (jsonAt message "responseStatusCode")
  let statusCode ← lift (typed (getHttpCode w.truncate status))
  if isSafeForNetworkHooks w url = false then sendHost .continueResponse params
  else if statusCode ∈ redirectCodes then sendHost .continueResponse params
  else
    let hooks ← lift (applyUserWebkitHooks w url)
    if hooks.isEmpty then sendHost .continueResponse params
    else patchDocument w message requestId params url statusCode hooks

def mimeDocRequestHandler (message : Json) : Handling Unit := do
  let requestId ← lift (typed (message.value getString (ascii "requestId") []))
  let url ← lift (requestUrl message)
  let params := [(ascii "requestId", ← lift (jsonAt message "requestId"))]
  let resourceType ← lift (typed (message.value getString (ascii "resourceType") []))
  if resourceType ≠ ascii "Document" then sendHost .continueResponse params
  else documentHandler w message requestId params url

def pausedBody (message : Json) : Handling Unit := do
  let url ← lift (requestUrl message)
  if isVfsRequest url then vfsRequestHandler w message else mimeDocRequestHandler w message

def pausedHandler (message : Json) : Handling Unit :=
  tryCatch (pausedBody w message) fun _ => pure ()

def requestPaused (message : Json) : List Sent := final (pausedHandler w message [])

end

structure PausedRequest where
  fields : List (Octets × Json)
  requestId : Json
  requestFields : List (Octets × Json)
  url : Octets
  hasId : fields.lookup (ascii "requestId") = some requestId
  hasRequest : fields.lookup (ascii "request") = some (.object requestFields)
  hasUrl : requestFields.lookup (ascii "url") = some (.string url)

def PausedRequest.message (m : PausedRequest) : Json := .object m.fields

def Sent.releases (sent : Sent) : Bool :=
  sent.method = .continueResponse ∨ sent.method = .fulfillRequest

/-- One message lets the browser go on, and it names the request. -/
def ReleasedOnce (requestId : Json) (log : List Sent) : Prop :=
  ∃ sent, log.filter Sent.releases = [sent] ∧
    sent.params.lookup (ascii "requestId") = some requestId

section
variable {Pattern : Type} (w : HookWorld Pattern) (m : PausedRequest)

/-- A file request is answered: nothing that is called throws, and the reply can be dumped. -/
def FileAnswered : Prop :=
  ∃ reply, vfsReply w m.url = .ok reply ∧ dumps (.object (vfsParams m.requestId reply)) = true

def PausedRequest.params : List (Octets × Json) := [(ascii "requestId", m.requestId)]

/-- A document with hooks is answered: the body is an object with a text and a truth value, and the
response can be dumped. -/
def BodyAnswered (requestId : Octets) (statusCode : Int) (hooks : ProcessedHooks) : Prop :=
  ∃ response body, w.responseBody = .ok response ∧ decodedBody response = .ok body ∧
    (m.url ≠ [] ∧ body ≠ [] → ∃ fulfill,
      patchedParams m.message requestId statusCode hooks body = .ok fulfill ∧
        dumps (.object fulfill) = true)

/-- A document is answered: it has a status code, and if it has hooks they are found and the body is
answered. -/
def DocumentAnswered (requestId : Octets) : Prop :=
  ∃ status statusCode, m.fields.lookup (ascii "responseStatusCode") = some status ∧
    getHttpCode w.truncate status = .ok statusCode ∧
    (isSafeForNetworkHooks w m.url = true ∧ statusCode ∉ redirectCodes →
      ∃ hooks, applyUserWebkitHooks w m.url = .ok hooks ∧
        (hooks.isEmpty = false → BodyAnswered w m requestId statusCode hooks))

/-- The request is answered: no access to the message and no outcome on its way throws. -/
def Answered : Prop :=
  if isVfsRequest m.url then FileAnswered w m
  else
    ∃ requestId resourceType, m.requestId = .string requestId ∧
      m.message.value getString (ascii "resourceType") [] = .ok resourceType ∧
      dumps (.object m.params) = true ∧
      (resourceType = ascii "Document" → DocumentAnswered w m requestId)

end

def Unreleased (log : List Sent) : Prop := log.filter Sent.releases = []

def Releases (requestId : Json) (x : Handling Unit) (log : List Sent) : Prop :=
  ReleasedOnce requestId (final (x log))

section
variable {requestId : Json} {log : List Sent} {α : Type}

lemma not_releasedOnce (h : Unreleased log) : ¬ ReleasedOnce requestId log := by
  rintro ⟨sent, hsent, -⟩
  rw [h] at hsent
  cases hsent

lemma releases_lift_iff (h : Unreleased log) {outcome : Except HookError α}
    {f : α → Handling Unit} :
    Releases requestId (lift outcome >>= f) log ↔
    ∃ a, outcome = .ok a ∧ Releases requestId (f a) log := by
  cases outcome with
  | error e =>
    constructor
    · intro hrel
      exact absurd hrel (not_releasedOnce h)
    · rintro ⟨a, ha, -⟩
      cases ha
  | ok a =>
    constructor
    · exact fun hrel => ⟨a, rfl, hrel⟩
    · rintro ⟨a', ha', hrel⟩
      obtain rfl := ok.inj ha'
      exact hrel

lemma sendHost_run (method : FetchMethod) (params : List (Octets × Json)) :
    sendHost method params log =
      if dumps (.object params) then .ok () (log ++ [⟨method, params⟩]) else .error .type316 log := by
  unfold sendHost
  split_ifs <;> rfl

lemma releases_sendHost_iff (h : Unreleased log) {method : FetchMethod}
    {params : List (Octets × Json)} (hmethod : (Sent.mk method params).releases = true)
    (hid : params.lookup (ascii "requestId") = some requestId) :
    Releases requestId (sendHost method params) log ↔ dumps (.object params) = true := by
  unfold Releases
  rw [sendHost_run]
  split_ifs with hdumps
  · refine iff_of_true ⟨⟨method, params⟩, ?_, hid⟩ hdumps
    rw [final_ok, List.filter_append, h, List.filter_singleton, hmethod]
    rfl
  · exact iff_of_false (not_releasedOnce h) hdumps

lemma releases_sendHost_bind_iff (h : Unreleased log) {method : FetchMethod}
    {params : List (Octets × Json)} {f : Unit → Handling Unit} :
    Releases requestId (sendHost method params >>= f) log ↔
    dumps (.object params) = true ∧ Releases requestId (f ()) (log ++ [⟨method, params⟩]) := by
  unfold Releases
  rw [bind_run, sendHost_run]
  split_ifs with hdumps
  · exact ⟨fun hrel => ⟨hdumps, hrel⟩, fun hrel => hrel.2⟩
  · exact iff_of_false (not_releasedOnce h) fun hrel => hdumps hrel.1

end

section
variable (m : PausedRequest)

lemma jsonAt_requestId : jsonAt m.message "requestId" = .ok m.requestId := by
  simp only [PausedRequest.message, jsonAt, m.hasId]

lemma requestUrl_message : requestUrl m.message = .ok m.url := by
  simp only [requestUrl, PausedRequest.message, jsonAt, m.hasRequest, bind, Except.bind, m.hasUrl]
  rfl

lemma jsonAt_eq_ok_iff {key : String} {field : Json} :
    jsonAt m.message key = .ok field ↔ m.fields.lookup (ascii key) = some field := by
  unfold PausedRequest.message jsonAt
  cases hfield : m.fields.lookup (ascii key) with
  | none | some field' => simp [hfield]

end

lemma typed_eq_ok_iff {α : Type} {x : Except TypeError α} {a : α} :
    typed x = .ok a ↔ x = .ok a := by
  cases x <;> simp [typed, Except.mapError]

lemma thrown_eq_ok_iff {α : Type} {x : Except String α} {a : α} : thrown x = .ok a ↔ x = .ok a := by
  cases x <;> simp [thrown, Except.mapError]

lemma lookup_vfsParams (requestId : Json) (reply : VfsReply) :
    (vfsParams requestId reply).lookup (ascii "requestId") = some requestId := rfl

lemma lookup_patchedParams {message : Json} {requestId : Octets} {code : Int}
    {hooks : ProcessedHooks} {body : Octets} {params : List (Octets × Json)}
    (h : patchedParams message requestId code hooks body = .ok params) :
    params.lookup (ascii "requestId") = some (.string requestId) := by
  obtain ⟨responseMessage, -, h⟩ := Millennium.Outcome.bind_eq_ok_iff.mp h
  obtain ⟨responseHeaders, -, h⟩ := Millennium.Outcome.bind_eq_ok_iff.mp h
  rw [← ok.inj h]
  rfl

section
variable {Pattern : Type} {w : HookWorld Pattern} {m : PausedRequest} {log : List Sent}

section
variable (h : Unreleased log)
include h

lemma releases_vfs_iff :
    Releases m.requestId (vfsRequestHandler w m.message) log ↔ FileAnswered w m := by
  unfold vfsRequestHandler FileAnswered
  simp only [requestUrl_message, ok.injEq, exists_eq_left', releases_lift_iff h, jsonAt_requestId]
  refine exists_congr fun reply => and_congr_right fun _ => ?_
  exact releases_sendHost_iff h rfl (lookup_vfsParams _ _)

lemma releases_continue_iff : Releases m.requestId (sendHost .continueResponse m.params) log ↔
    dumps (.object m.params) = true :=
  releases_sendHost_iff h rfl rfl

lemma releases_body_iff {requestId : Octets}
    (hid : m.requestId = .string requestId) {code : Int} {hooks : ProcessedHooks} :
    Releases m.requestId (patchDocument w m.message requestId m.params m.url code hooks) log ↔
    dumps (.object m.params) = true ∧ BodyAnswered w m requestId code hooks := by
  unfold patchDocument BodyAnswered
  rw [releases_sendHost_bind_iff h]
  refine and_congr_right fun hdumps => ?_
  have h' : Unreleased (log ++ [⟨.getResponseBody, m.params⟩]) := by
    unfold Unreleased at h ⊢
    rw [List.filter_append, h]
    rfl
  rw [releases_lift_iff h']
  refine exists_congr fun response => ?_
  rw [thrown_eq_ok_iff, releases_lift_iff h', ← exists_and_left]
  refine exists_congr fun body => and_congr_right fun _ => and_congr_right fun _ => ?_
  by_cases hempty : m.url = [] ∨ body = []
  · rw [if_pos hempty, releases_continue_iff h']
    refine iff_of_true hdumps fun hne => ?_
    exact (hempty.elim hne.1 hne.2).elim
  · rw [if_neg hempty, releases_lift_iff h', forall_prop_of_true (not_or.mp hempty)]
    refine exists_congr fun fulfill => and_congr_right fun hfulfill => ?_
    refine releases_sendHost_iff h' rfl ?_
    rw [lookup_patchedParams hfulfill, hid]

lemma releases_hooks_iff {requestId : Octets}
    (hid : m.requestId = .string requestId) {code : Int} {hooks : ProcessedHooks} :
    Releases m.requestId
        (if hooks.isEmpty then sendHost .continueResponse m.params
          else patchDocument w m.message requestId m.params m.url code hooks) log ↔
      dumps (.object m.params) = true ∧
        (hooks.isEmpty = false → BodyAnswered w m requestId code hooks) := by
  cases hempty : hooks.isEmpty with
  | true => simp [releases_continue_iff h]
  | false => simp [releases_body_iff h hid]

lemma releases_document_iff {requestId : Octets} (hid : m.requestId = .string requestId) :
    Releases m.requestId (documentHandler w m.message requestId m.params m.url) log ↔
    dumps (.object m.params) = true ∧ DocumentAnswered w m requestId := by
  unfold documentHandler DocumentAnswered
  rw [releases_lift_iff h, ← exists_and_left]
  refine exists_congr fun status => ?_
  rw [jsonAt_eq_ok_iff, releases_lift_iff h, ← exists_and_left, ← exists_and_left]
  refine exists_congr fun code => ?_
  rw [typed_eq_ok_iff, and_left_comm (a := dumps (.object m.params) = true)]
  refine and_congr_right fun _ => ?_
  rw [and_left_comm]
  refine and_congr_right fun _ => ?_
  cases hsafe : isSafeForNetworkHooks w m.url with
  | false => simp [releases_continue_iff h]
  | true =>
    by_cases hredirect : code ∈ redirectCodes
    · simp [hredirect, releases_continue_iff h]
    · rw [if_neg (by decide), if_neg hredirect, releases_lift_iff h,
        forall_prop_of_true ⟨rfl, hredirect⟩, ← exists_and_left]
      refine exists_congr fun hooks => ?_
      rw [releases_hooks_iff h hid]
      exact and_left_comm

end

lemma value_requestId : m.message.value getString (ascii "requestId") [] =
    m.requestId.getString := by
  simp only [PausedRequest.message, value, m.hasId]

lemma releases_mimeDoc_iff (h : Unreleased log) :
    Releases m.requestId (mimeDocRequestHandler w m.message) log ↔
    ∃ requestId kind, m.requestId = .string requestId ∧
    m.message.value getString (ascii "resourceType") [] = .ok kind ∧
    dumps (.object m.params) = true ∧
    (kind = ascii "Document" → DocumentAnswered w m requestId) := by
  unfold mimeDocRequestHandler
  rw [releases_lift_iff h, value_requestId]
  refine exists_congr fun requestId => ?_
  have hget : m.requestId.getString = .ok requestId ↔ m.requestId = .string requestId := by
    cases m.requestId <;> simp [getString]
  rw [typed_eq_ok_iff, hget, exists_and_left]
  refine and_congr_right fun hid => ?_
  rw [requestUrl_message]
  simp only [ok.injEq, exists_eq_left', releases_lift_iff h, jsonAt_requestId, typed_eq_ok_iff]
  refine exists_congr fun kind => and_congr_right fun _ => ?_
  change Releases _ (if kind ≠ ascii "Document" then sendHost .continueResponse m.params
    else documentHandler w m.message requestId m.params m.url) log ↔ _
  by_cases htype : kind = ascii "Document"
  · rw [if_neg (not_not.mpr htype), releases_document_iff h hid, forall_prop_of_true htype]
  · rw [if_pos htype, releases_continue_iff h, and_iff_left fun hdoc => absurd hdoc htype]

end

def storePage : PausedRequest where
  fields := [(ascii "requestId", .string (ascii "1")),
    (ascii "request", .object [(ascii "url", .string (ascii "https://store.steampowered.com/"))]),
    (ascii "resourceType", .string (ascii "Document")),
    (ascii "responseStatusCode", .unsigned 200)]
  requestId := .string (ascii "1")
  requestFields := [(ascii "url", .string (ascii "https://store.steampowered.com/"))]
  url := ascii "https://store.steampowered.com/"
  hasId := rfl
  hasRequest := rfl
  hasUrl := rfl

/-- A theme with one style sheet, and a body that does not arrive in time. -/
def slowBody : HookWorld Unit where
  virtualResources _ := none
  internalData _ := none
  millenniumPath := "/m".toList
  isOpen _ := false
  readText _ := .ok []
  readBytes _ := .ok []
  parseUrl _ := some (ascii "https", ascii "store.steampowered.com")
  hooks := [⟨ascii "a.css", (), .stylesheet⟩]
  regexMatch _ _ := .ok true
  dynamicCss := none
  responseBody := .error "Request timed out"
  truncate _ := 0

end Millennium.Engine
