import WebhookEngine.Dispatcher

/-!
# The virtual host of a request

A pinned request is made to an address; which host it is for says its `Host` header, which
`_pin_host` assigns from the `netloc` of the URL. The `netloc` holds the credentials of the
URL as well, and a colon without a port; the assignment replaces a header of exactly this name.

* `host_rows_iff`: when `Host` is the only header of its name, in any casing;
* `addressed_iff`: when a request is for the host of its URL.
-/

namespace WebhookEngine.HostHeader

open Lib Lib.Text Lib.Url HttpSender

variable {py : Python}

/-- The name of the header equals `Host`, ignoring case. -/
def isHost (py : Python) (kv : String × String) : Bool := py.lower kv.1.toList = "host".toList

/-- The request keeps the other parts of the URL, and has one header for the virtual host: the
host of the URL as it is written, with its explicit port if it has one. -/
structure Addressed (py : Python) (parsed : SplitResult) (pinned : String) (headers : Headers) :
    Prop where
  scheme : urlScheme pinned.toList = parsed.scheme
  path : urlPath pinned.toList = parsed.path
  query : urlQuery pinned.toList = parsed.query
  port : ∃ port, parsed.port = some port ∧
    urlPort pinned.toList = some (port.elim [] (Nat.toDigits 10))
  header : ∃ name, headers.rows.filter (isHost py) =
    [(name, String.ofList (hostValue parsed.netloc))]

/-- No credentials and no bare colon in the URL, no other spelling of `Host`, and an address that
leaves the rest of the URL as it is. -/
structure Plain (py : Python) (parsed : SplitResult) (ip : String) (headers : Headers) : Prop where
  address : Unobtrusive ip.toList ∨
    ∃ port, parsed.port = some port ∧ Spells parsed port ip.toList
  credentials : '@' ∉ parsed.netloc
  colon : parsed.netloc.getLast? ≠ some ':'
  headers : ∀ kv ∈ headers.rows, isHost py kv = true → kv.1 = "Host"

/-! ## The header -/

theorem isHost_host (v : String) : isHost py ("Host", v) = true :=
  decide_eq_true (py.lower_text (s := "Host") (l := "host") (by decide) (by decide))

theorem host_rows_iff (headers : Headers) (v : String) :
    (headers.put ("Host", v)).rows.filter (isHost py) = [("Host", v)] ↔
      ∀ kv ∈ headers.rows, isHost py kv = true → kv.1 = "Host" := by
  rw [Table.filter_eq_singleton (Table.mem_put.mpr (Or.inl rfl)) (isHost_host v)]
  constructor
  · intro h kv hkv hhost
    by_cases hname : kv.1 = "Host"
    · exact hname
    · exact h kv (Table.mem_put.mpr (Or.inr ⟨hkv, hname⟩)) hhost
  · intro h kv hkv hhost
    rcases Table.mem_put.mp hkv with rfl | ⟨hkv, -⟩
    · rfl
    · exact h kv hkv hhost

/-- The one header has the right value. -/
theorem header_iff (headers : Headers) (netloc : List Char) :
    (∃ name, (headers.put ("Host", String.ofList netloc)).rows.filter (isHost py) =
        [(name, String.ofList (hostValue netloc))]) ↔
      hostValue netloc = netloc ∧ ∀ kv ∈ headers.rows, isHost py kv = true → kv.1 = "Host" := by
  rw [← host_rows_iff headers (String.ofList netloc)]
  constructor
  · rintro ⟨name, h⟩
    have hmem : ("Host", String.ofList netloc) ∈
        (headers.put ("Host", String.ofList netloc)).rows.filter (isHost py) :=
      List.mem_filter.mpr ⟨Table.mem_put.mpr (Or.inl rfl), isHost_host _⟩
    rw [h, List.mem_singleton, Prod.mk.injEq, String.ofList_inj] at hmem
    obtain ⟨rfl, hnetloc⟩ := hmem
    exact ⟨hnetloc.symm, by rw [h, ← hnetloc]⟩
  · rintro ⟨hnetloc, h⟩
    exact ⟨"Host", by rw [h, hnetloc]⟩

/-! ## The request -/

theorem netloc_ne_nil {parsed : SplitResult} (h : parsed.hostname py ≠ []) :
    parsed.netloc ≠ [] := by
  intro hnil
  apply h
  rw [SplitResult.hostname, hnil]
  change py.lower [] ++ [] = []
  rw [List.append_nil, py.lower_ascii [] (List.forall_mem_nil _), List.map_nil]

/-- **When the request is for the host of its URL**, and for the rest of it: for a URL with a
host and an address, exactly when the URL has no credentials and no bare colon, the address
leaves the rest alone or spells it, and no header of the signer is another spelling of `Host`. -/
theorem addressed_iff (py : Python) (url : String) (headers : Headers) (ip : String)
    (parsed : SplitResult) (addr : IpAddress) (pinned : String) (headers' : Headers)
    (sni : Option String) (hip : py.ipAddress ip.toList = some addr)
    (hurl : urlsplit py url.toList = some parsed) (hhost : parsed.hostname py ≠ [])
    (hbuilt : pinHost py url headers ip = some (pinned, headers', sni)) :
    Addressed py parsed pinned headers' ↔ Plain py parsed ip headers := by
  -- a URL whose port cannot be read is not pinned
  obtain ⟨port, hport⟩ : ∃ port, parsed.port = some port := by
    rw [pinHost, if_neg (Python.ne_empty_of_ipAddress hip), hurl, Option.bind_some] at hbuilt
    obtain ⟨port, hport, -⟩ := Option.bind_eq_some_iff.mp hbuilt
    exact ⟨port, hport⟩
  cases (pinHost_eq headers hip hurl hport hhost).symm.trans hbuilt
  have hparts := parts_pinned_iff hurl (netloc_ne_nil hhost) ip.toList port
    (py.ipAddress_dotted ip.toList addr hip)
  have hvalue := hostValue_eq_iff hurl hport
  constructor
  · rintro ⟨hscheme, hpath, hquery, ⟨port', hport', hread⟩, hheader⟩
    rw [String.toList_ofList] at hscheme hpath hquery hread
    cases hport.symm.trans hport'
    obtain ⟨hnetloc, hheaders⟩ := (header_iff headers parsed.netloc).mp hheader
    obtain ⟨hcredentials, hcolon⟩ := hvalue.mp hnetloc
    refine ⟨?_, hcredentials, hcolon, hheaders⟩
    exact (hparts.mp ⟨hscheme, hpath, hquery, hread⟩).imp_right fun h => ⟨port, hport, h⟩
  · rintro ⟨haddress, hcredentials, hcolon, hheaders⟩
    have haddress : Unobtrusive ip.toList ∨ Spells parsed port ip.toList := by
      refine haddress.imp_right ?_
      rintro ⟨port', hport', h⟩
      cases hport.symm.trans hport'
      exact h
    obtain ⟨hscheme, hpath, hquery, hread⟩ := hparts.mpr haddress
    have hheader := (header_iff headers parsed.netloc).mpr
      ⟨hvalue.mpr ⟨hcredentials, hcolon⟩, hheaders⟩
    rw [← String.toList_ofList (l := urlunsplit _)] at hscheme hpath hquery hread
    exact ⟨hscheme, hpath, hquery, ⟨port, hport, hread⟩, hheader⟩

/-! ## What a signer returns -/

/-- A `Host` of the signer's own, under the given name. -/
def signerHeaders (name : String) : Headers := Table.empty.insert (name, "evil.example")

/-- The header under the name itself is replaced; the scope of the address holds brackets. -/
theorem addressed_iff_replaced : ∃ parsed pinned headers' sni,
    urlsplit Dispatcher.examplePython "https://[2606:4700::2]:8443/hook?x=1".toList =
      some parsed ∧
    pinHost Dispatcher.examplePython "https://[2606:4700::2]:8443/hook?x=1" (signerHeaders "Host")
      "2606:4700::1%x]" = some (pinned, headers', sni) ∧
    Addressed Dispatcher.examplePython parsed pinned headers' := by
  have hurl : ((urlsplit Dispatcher.examplePython
      "https://[2606:4700::2]:8443/hook?x=1".toList).any fun parsed =>
        decide (parsed.hostname Dispatcher.examplePython ≠ [] ∧ '@' ∉ parsed.netloc ∧
          parsed.netloc.getLast? ≠ some ':')) = true := by decide +kernel
  have hbuilt : (pinHost Dispatcher.examplePython "https://[2606:4700::2]:8443/hook?x=1"
      (signerHeaders "Host") "2606:4700::1%x]").isSome = true := by decide +kernel
  have hends : "2606:4700::1%x]".toList.all (fun c => !endsAuthority c) = true := by decide
  obtain ⟨parsed, hparsed, hhost⟩ := (Option.any_eq_true ..).mp hurl
  obtain ⟨hhost, hcredentials, hcolon⟩ := of_decide_eq_true hhost
  obtain ⟨⟨pinned, headers', sni⟩, hpinned⟩ := Option.isSome_iff_exists.mp hbuilt
  have haddress : Unobtrusive "2606:4700::1%x]".toList :=
    ⟨fun c hc => by simpa using List.all_eq_true.mp hends c hc, by decide +kernel⟩
  refine ⟨parsed, pinned, headers', sni, hparsed, hpinned, ?_⟩
  exact (addressed_iff Dispatcher.examplePython "https://[2606:4700::2]:8443/hook?x=1"
    (signerHeaders "Host") "2606:4700::1%x]" parsed
    (.v6 0x26064700000000000000000000000001#128) pinned headers' sni
    (by decide +kernel) hparsed hhost hpinned).mpr
    ⟨.inl haddress, hcredentials, hcolon, by decide +kernel⟩

/-- The values of the `Host` headers of a request. -/
def hosts (py : Python) (url : String) (headers : Headers) (ip : String) : Option (List String) :=
  (pinHost py url headers ip).map fun (_, headers', _) =>
    (headers'.rows.filter (isHost py)).map (·.2)

/-- A second spelling stays beside it, and credentials go into it. -/
theorem host_header_not_the_urls :
    hosts Dispatcher.examplePython "https://example.com/hook" (signerHeaders "host") "8.8.8.8" =
        some ["evil.example", "example.com"] ∧
      hosts Dispatcher.examplePython "https://user:pw@example.com/hook" .empty "8.8.8.8" =
        some ["user:pw@example.com"] := by
  constructor
  · decide +kernel
  · decide +kernel

end WebhookEngine.HostHeader
