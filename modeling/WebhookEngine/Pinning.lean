import WebhookEngine.Dispatcher

/-!
# The address a delivery is posted to

Every call of `sender.post` carries an address that `check_ip` accepted in the
same `send`. The host of the URL that the sender makes of it is another matter:
Python accepts any text without `%` as the scope of an IPv6 address, and
`_pin_host` writes the address into the URL as it stands.

* `pinnedTo_iff`: a call is made to the address that was checked if and only if
  that address holds none of the characters `/`, `?`, `#`, `@` and `]`;
* `scope_moves_the_host`: a resolver answer with such a scope takes the request to
  a blocked address.
-/

namespace WebhookEngine.Pinning

open Lib Lib.Url HttpSender SsrfGuard Dispatcher

variable {py : Python}

/-- The call is made to an address that passed the check for this record's host
and port, so it parses and is not blocked unless its host is trusted; and the URL
of the request has that address as its host. -/
structure PinnedTo (d : WebhookDispatcher py) (r : DeliveryRecord) (call : PostCall) : Prop where
  checked : ∃ parsed port, urlsplit py r.targetUrl.toList = some parsed ∧
    parsed.port = some port ∧
    checkIp d.ssrf call.resolvedIp.toList (some (parsed.hostname py))
      (some (targetPort parsed port)) = .ok () ∧
    ∃ addr, py.ipAddress call.resolvedIp.toList = some addr ∧
      (InCidr py d.ssrf.security.blockedCidrs (unwrap addr) →
        ∃ pattern ∈ d.ssrf.security.trustedPrivateHosts,
          Names py (normaliseHost py (parsed.hostname py)) (some (targetPort parsed port)) pattern)
  pinned : ∃ url headers sni, pinHost py call.url call.headers call.resolvedIp =
    some (url, headers, sni) ∧ urlHost url.toList = some call.resolvedIp.toList

/-- The host of the record's URL; empty when it does not parse. -/
def recordHost (py : Python) (r : DeliveryRecord) : List Char :=
  (urlsplit py r.targetUrl.toList).elim [] (·.hostname py)

/-- **A call goes to the checked address** if and only if the address in use (the
resolver's answer, or else the pinned one) holds no delimiter. -/
theorem pinnedTo_iff (d : WebhookDispatcher py) (r : DeliveryRecord) (ans : Answers)
    (call : PostCall) (hhost : recordHost py r ≠ []) (h : (send d r ans).post = some call) :
    PinnedTo d r call ↔
      ∀ c ∈ (currentIp d r (recordHost py r) ans.resolved).toList, delimiter c = false := by
  obtain ⟨profile, parsed, port, secret, hp⟩ := send_post h
  have hrecord : recordHost py r = parsed.hostname py := by
    rw [recordHost, hp.split]
    rfl
  rw [hrecord] at hhost ⊢
  rw [← hp.ip]
  obtain ⟨addr, haddr, hnames⟩ := unblocked_of_checkIp hp.checked
  obtain ⟨url, headers, sni, hpin, hiff⟩ :=
    urlHost_pinHost call.headers haddr hp.split hp.read hhost
  rw [← hp.url] at hpin
  constructor
  · rintro ⟨-, url', headers', sni', hpin', hhost'⟩
    rw [hpin] at hpin'
    cases hpin'
    exact hiff.mp hhost'
  · intro hdelim
    exact ⟨⟨parsed, port, hp.split, hp.read, hp.checked, addr, haddr, hnames⟩,
      url, headers, sni, hpin, hiff.mpr hdelim⟩

theorem pinnedTo_public_address : ∃ call,
    (send exampleDispatcher (exampleRecord "d" "https://example.com/hook")
      (exampleAnswers 1700000000 (some "8.8.8.8"))).post = some call ∧
    PinnedTo exampleDispatcher (exampleRecord "d" "https://example.com/hook") call := by
  obtain ⟨call, hcall⟩ := Option.isSome_iff_exists.mp (by decide +kernel :
    (send exampleDispatcher (exampleRecord "d" "https://example.com/hook")
      (exampleAnswers 1700000000 (some "8.8.8.8"))).post.isSome = true)
  have hplain : (currentIp exampleDispatcher (exampleRecord "d" "https://example.com/hook")
      (recordHost examplePython (exampleRecord "d" "https://example.com/hook"))
      (some "8.8.8.8")).toList.all (fun c => !delimiter c) = true := by decide +kernel
  refine ⟨call, hcall, (pinnedTo_iff _ _ _ call (by decide +kernel) hcall).mpr fun c hc => ?_⟩
  simpa using List.all_eq_true.mp hplain c hc

/-- The URL of the request for a call. -/
def requestUrl (py : Python) (call : PostCall) : Option String :=
  (pinHost py call.url call.headers call.resolvedIp).map (·.1)

/-- The resolver answers an IPv6 address that is not blocked, with a scope made of
URL delimiters: the request goes to 10.0.0.1, which is blocked. -/
theorem scope_moves_the_host :
    recordHost examplePython (exampleRecord "d" "https://example.com/hook") ≠ [] ∧ ∃ call,
    (send exampleDispatcher (exampleRecord "d" "https://example.com/hook")
      (exampleAnswers 1700000000 (some "2606:4700::1%x]@10.0.0.1?"))).post = some call ∧
    (requestUrl examplePython call).bind (urlHost ·.toList) = some "10.0.0.1".toList ∧
    ¬ PinnedTo exampleDispatcher (exampleRecord "d" "https://example.com/hook") call := by
  have hhost : ((send exampleDispatcher (exampleRecord "d" "https://example.com/hook")
      (exampleAnswers 1700000000 (some "2606:4700::1%x]@10.0.0.1?"))).post.bind fun call =>
        ((requestUrl examplePython call).bind (urlHost ·.toList)).map fun h =>
          (h, call.resolvedIp.toList)) =
      some ("10.0.0.1".toList, "2606:4700::1%x]@10.0.0.1?".toList) := by
    decide +kernel
  obtain ⟨call, hcall, hhost⟩ := Option.bind_eq_some_iff.mp hhost
  obtain ⟨host, hreq, hpair⟩ := Option.map_eq_some_iff.mp hhost
  rw [Prod.mk.injEq] at hpair
  obtain ⟨rfl, hip⟩ := hpair
  refine ⟨by decide +kernel, call, hcall, hreq, ?_⟩
  rintro ⟨-, url, headers, sni, hpin, hurl⟩
  rw [requestUrl, hpin, Option.map_some, Option.bind_some, hurl, hip] at hreq
  revert hreq
  decide

end WebhookEngine.Pinning
