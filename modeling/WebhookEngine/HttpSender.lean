import WebhookEngine.Lib.Table
import WebhookEngine.Lib.Url
import WebhookEngine.Types

/-!
# The sender

What `WebhookDispatcher` asks of `sender.post`, and two parts of `HttpxSender`: `_pin_host`, the
URL the request is made to when an address is given, and the loop of `post` that captures the
response.

* `urlHost_pinHost`: the host of that URL is the given address if and only if the
  address holds no delimiter of the URL syntax;
* `captured_prefix`: what is captured is the start of the response, however it is chunked.
-/

namespace WebhookEngine.HttpSender

open Lib Lib.Url

abbrev Headers := Dict String String

/-- The arguments of `sender.post`. -/
structure PostCall where
  url : String
  body : Bytes
  headers : Headers
  resolvedIp : String
  connectTimeoutS : ℚ
  readTimeoutS : ℚ
  totalTimeoutS : ℚ
  maxResponseBytes : Nat

variable (py : Python)

/-- `_pin_host`: URL, headers and SNI name of the request; `none` is the
`ValueError` of a URL that does not parse. -/
def pinHost (url : String) (headers : Headers) (resolvedIp : String) :
    Option (String × Headers × Option String) :=
  if resolvedIp = "" then some (url, headers, none)
  else
    (urlsplit py url.toList).bind fun parsed =>
      let host := parsed.hostname py
      parsed.port.bind fun port =>
        if host = [] then some (url, headers, none)
        else
          let netloc := addressNetloc resolvedIp.toList port
          some (String.ofList (urlunsplit { parsed with netloc := netloc }),
            headers.put ("Host", String.ofList parsed.netloc), some (String.ofList host))

variable {py}

/-- A URL with a host is pinned to an address. -/
theorem pinHost_eq {url : String} (headers : Headers) {ip : String} {parsed : SplitResult}
    {port : Option Nat} {addr : IpAddress} (hip : py.ipAddress ip.toList = some addr)
    (hurl : urlsplit py url.toList = some parsed) (hport : parsed.port = some port)
    (hhost : parsed.hostname py ≠ []) :
    pinHost py url headers ip = some
      (String.ofList (urlunsplit { parsed with netloc := addressNetloc ip.toList port }),
        headers.put ("Host", String.ofList parsed.netloc),
        some (String.ofList (parsed.hostname py))) := by
  rw [pinHost, if_neg (Python.ne_empty_of_ipAddress hip), hurl, Option.bind_some, hport,
    Option.bind_some, if_neg hhost]

/-- The host of the URL a call is made to, when the call is pinned to an address. -/
theorem urlHost_pinHost {url : String} (headers : Headers) {ip : String} {parsed : SplitResult}
    {port : Option Nat} {addr : IpAddress} (hip : py.ipAddress ip.toList = some addr)
    (hurl : urlsplit py url.toList = some parsed) (hport : parsed.port = some port)
    (hhost : parsed.hostname py ≠ []) :
    ∃ pinned headers' sni, pinHost py url headers ip = some (pinned, headers', sni) ∧
      (urlHost pinned.toList = some ip.toList ↔ ∀ c ∈ ip.toList, delimiter c = false) := by
  refine ⟨_, _, _, pinHost_eq headers hip hurl hport hhost, ?_⟩
  rw [String.toList_ofList]
  exact urlHost_pinned parsed ip.toList port (fun c hc => mem_scheme hurl hc)
    (py.ipAddress_dotted ip.toList addr hip)

/-! ## The response -/

/-- `captured` and `truncated` of the loop over `response.aiter_raw()`. -/
structure Capture where
  captured : Bytes := []
  truncated : Bool := false
  deriving DecidableEq, Repr

/-- One chunk; `truncated` is set where the loop breaks. -/
def captureStep (maxResponseBytes : Nat) (c : Capture) (chunk : Bytes) : Capture :=
  let remaining : Int := maxResponseBytes - c.captured.length
  if remaining < chunk.length then
    { captured := c.captured ++ chunk.take (max remaining 0).toNat, truncated := true }
  else { c with captured := c.captured ++ chunk }

/-- `async for chunk in response.aiter_raw()`. -/
def captureFrom (maxResponseBytes : Nat) (c : Capture) : List Bytes → Capture
  | [] => c
  | chunk :: chunks =>
    let c' := captureStep maxResponseBytes c chunk
    if c'.truncated then c' else captureFrom maxResponseBytes c' chunks

def capture (maxResponseBytes : Nat) (chunks : List Bytes) : Capture :=
  captureFrom maxResponseBytes {} chunks

/-- The start of what has arrived, and whether that is less than all of it. -/
def cutAt (maxResponseBytes : Nat) (arrived : Bytes) : Capture where
  captured := arrived.take maxResponseBytes
  truncated := decide (maxResponseBytes < arrived.length)

theorem captureStep_eq {n : Nat} {captured : Bytes} (h : captured.length ≤ n) (chunk : Bytes) :
    captureStep n { captured := captured } chunk = cutAt n (captured ++ chunk) := by
  simp only [captureStep, cutAt]
  split
  case isTrue hlt =>
    have hroom : (max ((n : Int) - captured.length) 0).toNat = n - captured.length := by omega
    have hover : n < (captured ++ chunk).length := by
      rw [List.length_append]
      omega
    rw [hroom, List.take_append, List.take_of_length_le h, decide_eq_true hover]
  case isFalse hle =>
    have hfits : (captured ++ chunk).length ≤ n := by
      rw [List.length_append]
      omega
    rw [List.take_of_length_le hfits, decide_eq_false (not_lt.mpr hfits)]

/-- More bytes change nothing when those before them are too many. -/
theorem cutAt_append {n : Nat} {arrived : Bytes} (h : n < arrived.length) (rest : Bytes) :
    cutAt n (arrived ++ rest) = cutAt n arrived := by
  have hmore : n < (arrived ++ rest).length := by
    rw [List.length_append]
    omega
  rw [cutAt, cutAt, List.take_append_of_le_length h.le, decide_eq_true hmore, decide_eq_true h]

theorem captureFrom_eq {n : Nat} {captured : Bytes} (h : captured.length ≤ n)
    (chunks : List Bytes) :
    captureFrom n { captured := captured } chunks = cutAt n (captured ++ chunks.flatten) := by
  induction chunks generalizing captured with
  | nil =>
    rw [captureFrom, List.flatten_nil, List.append_nil, cutAt, List.take_of_length_le h,
      decide_eq_false (not_lt.mpr h)]
  | cons chunk chunks ih =>
    rw [captureFrom, captureStep_eq h, List.flatten_cons, ← List.append_assoc]
    by_cases hover : n < (captured ++ chunk).length
    · have hbreak : (cutAt n (captured ++ chunk)).truncated = true := decide_eq_true hover
      rw [cutAt_append hover, if_pos hbreak]
    · have hfits : (captured ++ chunk).length ≤ n := not_lt.mp hover
      have hcut : cutAt n (captured ++ chunk) = { captured := captured ++ chunk } := by
        rw [cutAt, List.take_of_length_le hfits, decide_eq_false hover]
      rw [hcut, if_neg Bool.false_ne_true]
      exact ih hfits

theorem capture_eq (n : Nat) (chunks : List Bytes) : capture n chunks = cutAt n chunks.flatten :=
  captureFrom_eq (Nat.zero_le n) chunks

/-- The first `max_response_bytes` bytes of the response, after every number of chunks, and a
flag that says whether there were more. -/
theorem captured_prefix (maxResponseBytes : Nat) (chunks : List Bytes) :
    (capture maxResponseBytes chunks).captured = chunks.flatten.take maxResponseBytes ∧
    ((capture maxResponseBytes chunks).truncated = true ↔
      maxResponseBytes < chunks.flatten.length) ∧
    (∀ k, (capture maxResponseBytes (chunks.take k)).captured.length ≤ maxResponseBytes) ∧
    ∀ chunks' : List Bytes, chunks'.flatten = chunks.flatten →
      capture maxResponseBytes chunks' = capture maxResponseBytes chunks := by
  refine ⟨?_, ?_, fun k => ?_, fun chunks' h => ?_⟩
  · rw [capture_eq, cutAt]
  · rw [capture_eq, cutAt, decide_eq_true_eq]
  · rw [capture_eq, cutAt]
    exact List.length_take_le _ _
  · rw [capture_eq, capture_eq, h]

/-- The response of an `httpx` client, its body as `aiter_raw` yields it. -/
structure Response where
  statusCode : Int
  headers : List (String × String)
  chunks : List Bytes

/-- What `post` returns for a response; `decode` is `.decode("utf-8", errors="replace")`. -/
def postResult (decode : Bytes → String) (call : PostCall) (response : Response)
    (durationMs : Int) : HttpSendResult :=
  let c := capture call.maxResponseBytes response.chunks
  { status := response.statusCode, headers := response.headers, bodySnippet := decode c.captured,
    durationMs := durationMs, body := c.captured, bodyTruncated := c.truncated }

theorem postResult_body (decode : Bytes → String) (call : PostCall) (response : Response)
    (durationMs : Int) :
    let res := postResult decode call response durationMs
    res.body.length ≤ call.maxResponseBytes ∧
      (res.bodyTruncated = false → res.body = response.chunks.flatten) := by
  intro res
  have hcapture := capture_eq call.maxResponseBytes response.chunks
  have hbody : res.body = response.chunks.flatten.take call.maxResponseBytes :=
    congrArg Capture.captured hcapture
  have hflag : res.bodyTruncated =
      decide (call.maxResponseBytes < response.chunks.flatten.length) :=
    congrArg Capture.truncated hcapture
  rw [hbody, hflag]
  refine ⟨List.length_take_le _ _, fun h => List.take_of_length_le ?_⟩
  exact not_lt.mp (of_decide_eq_false h)

end WebhookEngine.HttpSender
