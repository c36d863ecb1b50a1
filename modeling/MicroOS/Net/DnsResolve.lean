import Mathlib.Data.List.ReduceOption
import MicroOS.Lib.Walk
import MicroOS.Net.DnsRecv

/-!
`dns_resolve_A` of `net/dns.c`.

* `Arrival`: what a response does to the cache, which is what `dns_udp_recv` does
  (`dnsUdpRecv_arrives`);
* `dnsCall`: a call, up to its return or to the call that it ends with; `dnsResolveA`: all of them;
* `dnsLink`: the cached `CNAME` of a name, and `CachedChain`: a chain of them that ends in an
  address;
* `Stuck`: a call that goes around in the cache without end;
* `resolved_iff`: when a resolution returns, with the address at the end of a cached chain.

Responses may arrive when a call starts and in every turn of its wait.
-/

namespace MicroOS

open Checked Walk

/-! ### Calls -/

/-- The result that a response adds to the cache, if it adds one. -/
abbrev Arrival := Option DnsResult

/-- The cache after a response. -/
def DnsProvider.arrive (dns : DnsProvider) : Arrival → DnsProvider
  | none => { dns with waitForResponse := false }
  | some result =>
    { results := dns.results ++ [result], loop := dns.loop + 1, waitForResponse := false }

/-- **`dns_udp_recv`** is an arrival. -/
theorem dnsUdpRecv_arrives {mem : ℕ → UInt8} {fuel : ℕ} {pages : ℕ → ℕ → UInt8}
    {dns dns' : DnsProvider} (h : dnsUdpRecv mem fuel pages dns = .ok dns') :
    ∃ arrival, dns' = dns.arrive arrival := by
  rw [dnsUdpRecv_eq, bind_eq_ok] at h
  obtain ⟨t, -, h⟩ := h
  obtain rfl := Except.ok.inj h
  cases ht : t.didGetResult with
  | false => exact ⟨none, by rw [DnsProvider.received, ht]; rfl⟩
  | true => exact ⟨some t.result, by rw [DnsProvider.received, ht]; rfl⟩

/-- Responses, one after the other. -/
def DnsProvider.deliver (dns : DnsProvider) (l : List Arrival) : DnsProvider :=
  l.foldl DnsProvider.arrive dns

/-- The string in an array of so many characters. -/
def cString (a : ℕ → UInt8) (size : ℕ) : List UInt8 :=
  ((List.range size).map a).takeWhile (· ≠ 0)

/-- `dns_find_result`. -/
def dnsFindResult (results : List DnsResult) (qname : List UInt8) : Option DnsResult :=
  results.find? fun result => strcmp qname (cString result.name 256) = 0

/-- `MAX_LOOP_COUNT`. -/
def maxLoopCount : ℤ := 10

/-- A call of `dns_resolve_A`, with what arrives from then on. -/
structure DnsCall where
  dns : DnsProvider
  arrivals : ℕ → List Arrival
  domain : List UInt8

/-- What is done with a result that was found: an address is returned, or the `CNAME`
is resolved. -/
def dnsFollow (dns : DnsProvider) (arrivals : ℕ → List Arrival) (result : DnsResult) :
    (ℕ × DnsProvider) ⊕ DnsCall :=
  if result.ipv4 ≠ 0 then .inl (result.ipv4, { dns with loop := 0 })
  else if maxLoopCount ≤ dns.loop then .inl (0, dns)
  else .inr ⟨dns, arrivals, cString result.cname 256⟩

/-- The turns of `NET_TIMEOUT`. -/
def netTimeout : ℕ := 1999

/-- The wait for a response, for so many more turns. -/
def dnsWait (qname : List UInt8) :
    ℕ → DnsProvider → (ℕ → List Arrival) → DnsProvider × (ℕ → List Arrival) × Option DnsResult
  | 0, dns, arrivals => (dns, arrivals, none)
  | n + 1, dns, arrivals =>
    let dns := dns.deliver (arrivals 0)
    match if dns.waitForResponse then none else dnsFindResult dns.results qname with
    | some result => (dns, fun i => arrivals (i + 1), some result)
    | none => dnsWait qname n dns fun i => arrivals (i + 1)

/-- The end of the wait: what was found is followed, or zero is returned. -/
def dnsFinish (waited : DnsProvider × (ℕ → List Arrival) × Option DnsResult) :
    (ℕ × DnsProvider) ⊕ DnsCall :=
  match waited.2.2 with
  | some result => dnsFollow waited.1 waited.2.1 result
  | none => .inl (0, waited.1)

/-- The bytes of `qname` in `dns_resolve_A`. -/
def qnameSize : ℕ := 128

/-- `qname` of a domain. -/
def dnsQname (domain : List UInt8) : List UInt8 :=
  cString (dnsResolvDomainToHostname (fun _ => 0) domain).2 qnameSize

/-- `dns_resolve_A` up to its return or to the call that it ends with. -/
def dnsCall (c : DnsCall) : Except Halt ((ℕ × DnsProvider) ⊕ DnsCall) :=
  let dstPos := (dnsResolvDomainToHostname (fun _ => 0) c.domain).1
  if qnameSize ≤ dstPos then .error (.outOfBounds dstPos)
  else
    let dns := c.dns.deliver (c.arrivals 0)
    let arrivals := fun i => c.arrivals (i + 1)
    match dnsFindResult dns.results (dnsQname c.domain) with
    | some result => .ok (dnsFollow dns arrivals result)
    | none =>
      .ok (dnsFinish (dnsWait (dnsQname c.domain) netTimeout { dns with waitForResponse := true }
        arrivals))

/-- `dns_resolve_A`: the address, and the cache. -/
def dnsResolveA : ℕ → DnsCall → Except Halt (ℕ × DnsProvider)
  | 0, _ => .error .loops
  | fuel + 1, c => do
      match ← dnsCall c with
      | .inl r => return r
      | .inr c => dnsResolveA fuel c

/-- The call that a call ends with. -/
def nextCall (c : DnsCall) : Option DnsCall :=
  match dnsCall c with
  | .ok (.inr c') => some c'
  | _ => none

/-! ### Links in the cache -/

/-- The `CNAME` that is cached for a name. -/
def dnsLink (results : List DnsResult) (domain : List UInt8) : Option (List UInt8) :=
  match dnsFindResult results (dnsQname domain) with
  | some result => if result.ipv4 = 0 then some (cString result.cname 256) else none
  | none => none

/-- **A chain of so many cached `CNAME`s** from a name to an address. -/
inductive CachedChain (results : List DnsResult) : List UInt8 → ℕ → ℕ → Prop where
  | address {domain : List UInt8} {result : DnsResult}
      (found : dnsFindResult results (dnsQname domain) = some result) (ipv4 : result.ipv4 ≠ 0) :
      CachedChain results domain 0 result.ipv4
  | cname {domain next : List UInt8} {links ip : ℕ} (link : dnsLink results domain = some next)
      (rest : CachedChain results next links ip) : CachedChain results domain (links + 1) ip

/-- The results that arrive at the first so many points. -/
def arrived (arrivals : ℕ → List Arrival) (n : ℕ) : List DnsResult :=
  (List.range n).flatMap fun i => (arrivals i).reduceOption

/-- No result arrives any more. -/
def Quiet (arrivals : ℕ → List Arrival) : Prop := ∀ i, (arrivals i).reduceOption = []

/-- **A call that does not return**: the cached `CNAME`s lead back to its name, the counter is below
its bound, and no result arrives any more. -/
structure Stuck (c : DnsCall) : Prop where
  returns : Returns (dnsLink c.dns.results) c.domain
  loop_lt : c.dns.loop < maxLoopCount
  quiet : Quiet c.arrivals

/-- **A name is resolved**: the call returns, and with the address at the end of a cached chain of
at most ten links if there is one. -/
def Resolved (c : DnsCall) : Prop :=
  (∃ fuel r, dnsResolveA fuel c = .ok r) ∧
    ∀ links ip, links ≤ 10 → CachedChain c.dns.results c.domain links ip →
      ∃ fuel dns, dnsResolveA fuel c = .ok (ip, dns)

/-! ### What a call does -/

section Call

variable {c c' : DnsCall} {results more : List DnsResult} {qname domain next : List UInt8}
  {arrivals arrivals' : ℕ → List Arrival} {dns dns' : DnsProvider} {result : DnsResult} {n : ℕ}

/-- Responses add their results behind those that are cached, and are counted. -/
lemma deliver_eq (dns : DnsProvider) (l : List Arrival) :
    (dns.deliver l).results = dns.results ++ l.reduceOption ∧
      (dns.deliver l).loop = dns.loop + l.reduceOption.length := by
  induction l generalizing dns with
  | nil => simp [DnsProvider.deliver, List.reduceOption]
  | cons a l ih =>
    obtain ⟨hresults, hloop⟩ := ih (dns.arrive a)
    rw [DnsProvider.deliver, List.foldl_cons, ← DnsProvider.deliver, hresults, hloop]
    cases a with
    | none => exact ⟨rfl, rfl⟩
    | some r =>
      rw [List.reduceOption_cons_of_some, List.length_cons, DnsProvider.arrive]
      refine ⟨List.append_assoc _ _ _, ?_⟩
      push_cast
      ring

/-- A call goes on waiting when nothing has arrived. -/
lemma deliver_waits {l : List Arrival} (h : (dns.deliver l).waitForResponse = true) : l = [] := by
  rcases List.eq_nil_or_concat l with rfl | ⟨l, a, rfl⟩
  · rfl
  · rw [DnsProvider.deliver, List.concat_eq_append, List.foldl_append] at h
    cases a <;> exact nomatch h

/-- What is found stays what is found. -/
lemma dnsFindResult_append (h : dnsFindResult results qname = some result) :
    dnsFindResult (results ++ more) qname = some result := by
  rw [dnsFindResult] at h ⊢
  rw [List.find?_append, h, Option.some_or]

/-- A link stays when results are added. -/
lemma dnsLink_append (h : dnsLink results domain = some next) :
    dnsLink (results ++ more) domain = some next := by
  rw [dnsLink] at h
  cases hfind : dnsFindResult results (dnsQname domain) with
  | none =>
    rw [hfind] at h
    exact nomatch h
  | some result =>
    rw [hfind] at h
    rw [dnsLink, dnsFindResult_append hfind]
    exact h

/-- So does a chain. -/
lemma cachedChain_append {links ip : ℕ} (h : CachedChain results domain links ip) :
    CachedChain (results ++ more) domain links ip := by
  induction h with
  | address found ipv4 => exact .address (dnsFindResult_append found) ipv4
  | cname link _ ih => exact .cname (dnsLink_append link) ih

/-- The address at the end of a chain is not zero. -/
lemma CachedChain.ne_zero {links ip : ℕ} (h : CachedChain results domain links ip) : ip ≠ 0 := by
  induction h with
  | address _ ipv4 => exact ipv4
  | cname _ _ ih => exact ih

/-- The results of the first turn come first. -/
lemma arrived_succ (arrivals : ℕ → List Arrival) (n : ℕ) : arrived arrivals (n + 1) =
    (arrivals 0).reduceOption ++ arrived (fun i => arrivals (i + 1)) n := by
  rw [arrived, List.range_succ_eq_map, List.flatMap_cons, List.flatMap_map, arrived]

lemma Quiet.arrived (h : Quiet arrivals) (n : ℕ) : arrived arrivals n = [] :=
  List.flatMap_eq_nil_iff.mpr fun i _ => h i

/-- **The wait**: it has delivered what arrived, and where it finds a result that was not there
before, one has arrived. -/
lemma dnsWait_spec (hnone : dnsFindResult dns.results qname = none) :
    ∃ k dns' found, dnsWait qname n dns arrivals = (dns', fun i => arrivals (i + k), found) ∧
      dns'.results = dns.results ++ arrived arrivals k ∧
      dns'.loop = dns.loop + (arrived arrivals k).length ∧
      ∀ result, found = some result → dnsFindResult dns'.results qname = some result ∧
        arrived arrivals k ≠ [] := by
  induction n generalizing dns arrivals with
  | zero => exact ⟨0, dns, none, rfl, by simp [arrived], by simp [arrived], fun _ h => nomatch h⟩
  | succ n ih =>
    obtain ⟨hresults, hloop⟩ := deliver_eq dns (arrivals 0)
    have hone : arrived arrivals 1 = (arrivals 0).reduceOption := by
      rw [arrived_succ, arrived, List.range_zero, List.flatMap_nil, List.append_nil]
    rw [dnsWait]
    split
    · rename_i result hfind
      refine ⟨1, _, some result, rfl, by rw [hresults, hone], by rw [hloop, hone], ?_⟩
      intro result' hresult
      obtain rfl := Option.some.inj hresult
      split_ifs at hfind with hwait
      refine ⟨hfind, fun hempty => ?_⟩
      rw [hresults, ← hone, hempty, List.append_nil, hnone] at hfind
      exact nomatch hfind
    · rename_i hfind
      have hnone' : dnsFindResult (dns.deliver (arrivals 0)).results qname = none := by
        cases hwait : (dns.deliver (arrivals 0)).waitForResponse with
        | true =>
          rw [hresults, deliver_waits hwait]
          simpa [List.reduceOption] using hnone
        | false =>
          rw [hwait] at hfind
          exact hfind
      obtain ⟨k, dns', found, hwait, hres, hlp, hfound⟩ :=
        @ih (fun i => arrivals (i + 1)) (dns.deliver (arrivals 0)) hnone'
      refine ⟨k + 1, dns', found, hwait, ?_, ?_, fun result hresult => ?_⟩
      · rw [hres, hresults, arrived_succ, List.append_assoc]
      · rw [hlp, hloop, arrived_succ, List.length_append]
        push_cast
        ring
      · obtain ⟨hfind, hne⟩ := hfound result hresult
        refine ⟨hfind, ?_⟩
        rw [arrived_succ]
        exact List.append_ne_nil_of_right_ne_nil _ hne

/-- Where the encoder stores last. -/
lemma domainLoop_dstPos (src : List UInt8) (lbl dstPos : ℕ) (currLen : UInt8) (dst : ℕ → UInt8) :
    (domainLoop src lbl dstPos currLen dst).1 = dstPos + src.length := by
  induction src generalizing lbl dstPos currLen dst with
  | nil => rfl
  | cons c src ih =>
    rw [domainLoop]
    split_ifs
    · rw [ih, List.length_cons, Nat.add_right_comm, Nat.add_assoc]
    · rw [ih, List.length_cons, Nat.add_right_comm, Nat.add_assoc]

/-- A name is too long for its buffer from 126 characters on. -/
lemma dnsCall_overflow : qnameSize ≤ (dnsResolvDomainToHostname (fun _ => 0) c.domain).1 ↔
    125 < c.domain.length := by
  rw [dnsResolvDomainToHostname]
  dsimp only
  rw [domainLoop_dstPos, List.length_append, List.length_singleton, qnameSize]
  omega

/-- What a call has found when `k` turns of its wait are over: a cached result, without a wait, or
one that has arrived. -/
structure Finds (c : DnsCall) (k : ℕ) (dns : DnsProvider) (found : Option DnsResult) : Prop where
  results_eq : dns.results = c.dns.results ++ arrived c.arrivals (k + 1)
  loop_eq : dns.loop = c.dns.loop + (arrived c.arrivals (k + 1)).length
  found_eq : ∀ result, found = some result →
    dnsFindResult dns.results (dnsQname c.domain) = some result
  cached : dnsFindResult (c.dns.results ++ arrived c.arrivals 1) (dnsQname c.domain) ≠ none →
    k = 0 ∧ found ≠ none
  waited : dnsFindResult (c.dns.results ++ arrived c.arrivals 1) (dnsQname c.domain) = none →
    found ≠ none → arrived c.arrivals (k + 1) ≠ []

/-- **A call** with a name that fits goes on with what it has found, or returns zero. -/
lemma dnsCall_eq (hlen : c.domain.length ≤ 125) : ∃ k dns found, Finds c k dns found ∧
    dnsCall c = .ok (dnsFinish (dns, fun i => c.arrivals (i + (k + 1)), found)) := by
  obtain ⟨hresults, hloop⟩ := deliver_eq c.dns (c.arrivals 0)
  have hone : arrived c.arrivals 1 = (c.arrivals 0).reduceOption := by
    rw [arrived_succ, arrived, List.range_zero, List.flatMap_nil, List.append_nil]
  rw [dnsCall, if_neg (fun h => by have := dnsCall_overflow.mp h; omega)]
  dsimp only
  cases hfind : dnsFindResult (c.dns.deliver (c.arrivals 0)).results (dnsQname c.domain) with
  | some result =>
    refine ⟨0, c.dns.deliver (c.arrivals 0), some result, ⟨?_, ?_, ?_, ?_, ?_⟩, rfl⟩
    · rw [hresults, hone]
    · rw [hloop, hone]
    · exact fun result' h => hfind.trans h
    · exact fun _ => ⟨rfl, Option.some_ne_none result⟩
    · rw [hone, ← hresults, hfind]
      exact fun h => nomatch h
  | none =>
    obtain ⟨k, dns', found, hwait, hres, hlp, hfound⟩ := @dnsWait_spec (dnsQname c.domain)
      (fun i => c.arrivals (i + 1)) { c.dns.deliver (c.arrivals 0) with waitForResponse := true }
      netTimeout hfind
    dsimp only at hres hlp
    refine ⟨k, dns', found, ⟨?_, ?_, fun result h => (hfound result h).1, ?_, ?_⟩, ?_⟩
    · rw [hres, hresults, arrived_succ, List.append_assoc]
    · rw [hlp, hloop, arrived_succ, List.length_append]
      push_cast
      ring
    · rw [hone, ← hresults, hfind]
      exact fun h => absurd rfl h
    · intro _ hne
      obtain ⟨result, hresult⟩ := Option.ne_none_iff_exists'.mp hne
      rw [arrived_succ]
      exact List.append_ne_nil_of_right_ne_nil _ (hfound result hresult).2
    · refine congrArg (Except.ok ∘ dnsFinish) (hwait.trans ?_)
      simp only [Nat.add_assoc]

/-- What follows a result. -/
lemma dnsFollow_inr (h : dnsFollow dns arrivals result = .inr c') :
    result.ipv4 = 0 ∧ dns.loop < maxLoopCount ∧ c' = ⟨dns, arrivals, cString result.cname 256⟩ := by
  rw [dnsFollow] at h
  split_ifs at h with hip hloop
  exact ⟨not_not.mp hip, not_le.mp hloop, (Sum.inr.inj h).symm⟩

/-- The link of a name is in the result that is found for it. -/
lemma dnsLink_of_found (hfind : dnsFindResult results (dnsQname domain) = some result) :
    dnsLink results domain = if result.ipv4 = 0 then some (cString result.cname 256) else none := by
  rw [dnsLink, hfind]

/-- **The call that a call ends with.** -/
lemma nextCall_cases (h : nextCall c = some c') : c.domain.length ≤ 125 ∧
    c'.dns.loop < maxLoopCount ∧ dnsLink c'.dns.results c.domain = some c'.domain ∧
    ∃ k, c'.arrivals = (fun i => c.arrivals (i + (k + 1))) ∧
      c'.dns.results = c.dns.results ++ arrived c.arrivals (k + 1) ∧
      c'.dns.loop = c.dns.loop + (arrived c.arrivals (k + 1)).length ∧
      (k = 0 ∨ arrived c.arrivals (k + 1) ≠ []) := by
  have hlen : c.domain.length ≤ 125 := by
    by_contra hlong
    rw [nextCall, dnsCall, if_pos (dnsCall_overflow.mpr (not_le.mp hlong))] at h
    exact nomatch h
  obtain ⟨k, dns, found, hfinds, hcall⟩ := dnsCall_eq hlen
  rw [nextCall, hcall] at h
  cases found with
  | none => exact nomatch h
  | some result =>
    rw [dnsFinish] at h
    dsimp only at h
    cases hfollow : dnsFollow dns (fun i => c.arrivals (i + (k + 1))) result with
    | inl r =>
      rw [hfollow] at h
      exact nomatch h
    | inr next =>
      rw [hfollow] at h
      obtain rfl := Option.some.inj h
      obtain ⟨hip, hloop, rfl⟩ := dnsFollow_inr hfollow
      refine ⟨hlen, hloop, ?_, k, rfl, hfinds.results_eq, hfinds.loop_eq, ?_⟩
      · rw [dnsLink_of_found (hfinds.found_eq result rfl), if_pos hip]
      · by_cases hcached : dnsFindResult (c.dns.results ++ arrived c.arrivals 1)
            (dnsQname c.domain) = none
        · exact .inr (hfinds.waited hcached (Option.some_ne_none result))
        · exact .inl (hfinds.cached hcached).1

/-- A name that is cached is looked up without a wait. -/
lemma dnsCall_cached (hlen : c.domain.length ≤ 125)
    (hfind : dnsFindResult (c.dns.results ++ arrived c.arrivals 1) (dnsQname c.domain) =
      some result) : ∃ dns, dnsCall c = .ok (dnsFollow dns (fun i => c.arrivals (i + 1)) result) ∧
    dns.results = c.dns.results ++ arrived c.arrivals 1 ∧
    dns.loop = c.dns.loop + (arrived c.arrivals 1).length := by
  obtain ⟨k, dns, found, hfinds, hcall⟩ := dnsCall_eq hlen
  obtain ⟨rfl, hne⟩ := hfinds.cached (by rw [hfind]; exact Option.some_ne_none result)
  obtain ⟨result', rfl⟩ := Option.ne_none_iff_exists'.mp hne
  have hfound := hfinds.found_eq result' rfl
  rw [hfinds.results_eq, Nat.zero_add, hfind] at hfound
  obtain rfl := Option.some.inj hfound
  exact ⟨dns, hcall, hfinds.results_eq, hfinds.loop_eq⟩

/-- A link comes from a result without an address. -/
lemma exists_of_dnsLink (h : dnsLink results domain = some next) :
    ∃ result, dnsFindResult results (dnsQname domain) = some result ∧ result.ipv4 = 0 ∧
      next = cString result.cname 256 := by
  rw [dnsLink] at h
  split at h
  · rename_i result hfind
    split_ifs at h with hip
    exact ⟨result, hfind, hip, (Option.some.inj h).symm⟩
  · exact nomatch h

/-- **A cached `CNAME`** is followed, as long as the counter is below its bound. -/
lemma dnsCall_link (hlen : c.domain.length ≤ 125)
    (hlink : dnsLink (c.dns.results ++ arrived c.arrivals 1) c.domain = some next) :
    ∃ dns, dnsCall c = .ok (if maxLoopCount ≤ dns.loop then .inl (0, dns)
        else .inr ⟨dns, fun i => c.arrivals (i + 1), next⟩) ∧
      dns.results = c.dns.results ++ arrived c.arrivals 1 ∧
      dns.loop = c.dns.loop + (arrived c.arrivals 1).length := by
  obtain ⟨result, hfind, hip, rfl⟩ := exists_of_dnsLink hlink
  obtain ⟨dns, hcall, hresults, hloop⟩ := dnsCall_cached hlen hfind
  refine ⟨dns, ?_, hresults, hloop⟩
  rw [hcall, dnsFollow, if_neg (not_not.mpr hip)]

/-- A call with a name that fits and that calls nothing returns. -/
lemma dnsCall_returns (hlen : c.domain.length ≤ 125) (hnext : nextCall c = none) :
    ∃ r, dnsCall c = .ok (.inl r) := by
  obtain ⟨k, dns, found, -, hcall⟩ := dnsCall_eq hlen
  rw [nextCall, hcall] at hnext
  cases found with
  | none => exact ⟨_, hcall⟩
  | some result =>
    rw [dnsFinish] at hnext hcall
    dsimp only at hnext hcall
    cases hfollow : dnsFollow dns (fun i => c.arrivals (i + (k + 1))) result with
    | inl r => exact ⟨r, by rw [hcall, hfollow]⟩
    | inr next =>
      rw [hfollow] at hnext
      exact nomatch hnext

/-- A call that another one follows ends with it. -/
lemma dnsCall_of_nextCall (h : nextCall c = some c') : dnsCall c = .ok (.inr c') := by
  rw [nextCall] at h
  split at h
  · rename_i next hcall
    rw [hcall, Option.some.inj h]
  · exact nomatch h

end Call

/-! ### Runs -/

section Run

variable {c c' : DnsCall} {r : ℕ × DnsProvider} {fuel fuel' : ℕ}

/-- **A resolution returns** when its calls end and the names of all of them fit. -/
lemma returns_iff_path : (∃ fuel r, dnsResolveA fuel c = .ok r) ↔
    ∃ l, Path nextCall c l ∧ ∀ x ∈ l, x.domain.length ≤ 125 := by
  constructor
  · rintro ⟨fuel, r, h⟩
    induction fuel generalizing c with
    | zero => exact nomatch h
    | succ fuel ih =>
      rw [dnsResolveA, bind_eq_ok] at h
      obtain ⟨next, hcall, h⟩ := h
      have hlen : c.domain.length ≤ 125 := by
        by_contra hlong
        rw [dnsCall, if_pos (dnsCall_overflow.mpr (not_le.mp hlong))] at hcall
        exact nomatch hcall
      cases next with
      | inl r' =>
        have hlast : nextCall c = none := by rw [nextCall, hcall]
        exact ⟨[c], .last hlast, List.forall_mem_singleton.mpr hlen⟩
      | inr c' =>
        have hnext : nextCall c = some c' := by rw [nextCall, hcall]
        obtain ⟨l, hl, hlens⟩ := ih h
        exact ⟨c :: l, .step hnext hl, List.forall_mem_cons.mpr ⟨hlen, hlens⟩⟩
  · rintro ⟨l, hl, hlens⟩
    induction hl with
    | last hnone =>
      obtain ⟨r, hcall⟩ := dnsCall_returns (hlens _ List.mem_cons_self) hnone
      exact ⟨1, r, by rw [dnsResolveA, hcall]; rfl⟩
    | step hsome _ ih =>
      obtain ⟨fuel, r, h⟩ := ih (List.forall_mem_cons.mp hlens).2
      exact ⟨fuel + 1, r, by rw [dnsResolveA, dnsCall_of_nextCall hsome]; exact h⟩

/-- While nothing arrives, a call follows the link of its name. -/
lemma Quiet.nextCall {next : List UInt8} (h : Quiet c.arrivals) (hlen : c.domain.length ≤ 125)
    (hloop : c.dns.loop < maxLoopCount) (hlink : dnsLink c.dns.results c.domain = some next) :
    ∃ c', nextCall c = some c' ∧ c'.domain = next ∧ c'.dns.results = c.dns.results ∧
      c'.dns.loop = c.dns.loop ∧ Quiet c'.arrivals := by
  obtain ⟨dns, hcall, hresults, hcount⟩ := dnsCall_link hlen (dnsLink_append hlink)
  rw [h.arrived 1, List.append_nil] at hresults
  rw [h.arrived 1, List.length_nil, Nat.cast_zero, add_zero] at hcount
  rw [if_neg (not_le.mpr (hcount ▸ hloop))] at hcall
  exact ⟨⟨dns, fun i => c.arrivals (i + 1), next⟩, by rw [MicroOS.nextCall, hcall], rfl, hresults,
    hcount, fun i => h (i + 1)⟩

/-- A call that goes around makes another one that does. -/
lemma Stuck.next (h : Stuck c) (hlen : c.domain.length ≤ 125) :
    ∃ c', nextCall c = some c' ∧ Stuck c' := by
  obtain ⟨next, hstep, hback⟩ := Relation.TransGen.head'_iff.mp h.returns
  obtain ⟨c', hnext, hdomain, hresults, hloop, hquiet⟩ := h.quiet.nextCall hlen h.loop_lt hstep
  refine ⟨c', hnext, ?_, hloop ▸ h.loop_lt, hquiet⟩
  rw [hresults, hdomain]
  exact Relation.TransGen.tail' hback hstep

/-- A call that goes around is on no path of calls whose names fit. -/
lemma Stuck.not_path {l : List DnsCall} (h : Stuck c) (hl : Path nextCall c l)
    (hlens : ∀ x ∈ l, x.domain.length ≤ 125) : False := by
  induction hl with
  | last hnone =>
    obtain ⟨c', hnext, -⟩ := h.next (hlens _ List.mem_cons_self)
    exact nomatch hnone.symm.trans hnext
  | step hsome _ ih =>
    obtain ⟨hlen, hlens⟩ := List.forall_mem_cons.mp hlens
    obtain ⟨c', hnext, hstuck⟩ := h.next hlen
    obtain rfl := Option.some.inj (hsome.symm.trans hnext)
    exact ih hstuck hlens

/-- The names that links lead to are in the cache. -/
lemma finite_leads (results : List DnsResult) (domain : List UInt8) :
    {name | Leads (dnsLink results) domain name}.Finite := by
  refine (((results.map fun r => cString r.cname 256).toFinset.finite_toSet).insert
    domain).subset fun name hname => ?_
  rcases hname.cases_tail with rfl | ⟨last, -, hlink⟩
  · exact Set.mem_insert _ _
  · obtain ⟨result, hfind, -, rfl⟩ := exists_of_dnsLink hlink
    refine Set.mem_insert_of_mem _ (List.mem_toFinset.mpr ?_)
    exact List.mem_map_of_mem (List.mem_of_find?_eq_some hfind)

/-- While nothing arrives, the calls go where the links lead. -/
lemma exists_call_of_leads {name : List UInt8} (hquiet : Quiet c.arrivals)
    (hloop : c.dns.loop < maxLoopCount)
    (hlens : ∀ x, Leads nextCall c x → x.domain.length ≤ 125)
    (h : Leads (dnsLink c.dns.results) c.domain name) :
    ∃ x, Leads nextCall c x ∧ x.domain = name ∧ x.dns.results = c.dns.results ∧
      x.dns.loop = c.dns.loop ∧ Quiet x.arrivals := by
  induction h with
  | refl => exact ⟨c, .refl, rfl, rfl, rfl, hquiet⟩
  | tail _ hlink ih =>
    obtain ⟨x, hx, rfl, hresults, hcount, hq⟩ := ih
    obtain ⟨y, hnext, hdomain, hres, hcnt, hq'⟩ :=
      hq.nextCall (hlens x hx) (hcount ▸ hloop) (by rw [hresults]; exact hlink)
    exact ⟨y, hx.tail hnext, hdomain, hres.trans hresults, hcnt.trans hcount, hq'⟩

/-- While nothing arrives, calls end where the links do. -/
lemma path_of_links {name : List UInt8} {l : List (List UInt8)}
    (hl : Path (dnsLink c.dns.results) name l) (hname : c.domain = name) (hquiet : Quiet c.arrivals)
    (hlens : ∀ x, Leads nextCall c x → x.domain.length ≤ 125) : ∃ l, Path nextCall c l := by
  generalize hresults : c.dns.results = results at hl
  induction hl generalizing c with
  | last hnone =>
    cases hnext : nextCall c with
    | none => exact ⟨_, .last hnext⟩
    | some c' =>
      obtain ⟨-, -, hlink, k, -, hres, -⟩ := nextCall_cases hnext
      rw [hquiet.arrived, List.append_nil] at hres
      rw [hres, hresults, hname, hnone] at hlink
      exact nomatch hlink
  | step hsome _ ih =>
    cases hnext : nextCall c with
    | none => exact ⟨_, .last hnext⟩
    | some c' =>
      obtain ⟨-, -, hlink, k, harr, hres, -⟩ := nextCall_cases hnext
      rw [hquiet.arrived, List.append_nil] at hres
      rw [hres, hresults, hname, hsome] at hlink
      obtain ⟨l, hl⟩ := ih (Option.some.inj hlink).symm
        (by rw [harr]; exact fun i => hquiet (i + (k + 1)))
        (fun x hx => hlens x (.head hnext hx)) (hres.trans hresults)
      exact ⟨_, .step hnext hl⟩

/-- The calls end when nothing arrives and none of them goes around. -/
lemma exists_path_of_quiet (hquiet : Quiet c.arrivals)
    (h : ∀ x, Leads nextCall c x → x.domain.length ≤ 125 ∧ ¬ Stuck x) :
    ∃ l, Path nextCall c l := by
  by_cases hloop : c.dns.loop < maxLoopCount
  · have hends : ∀ name, Leads (dnsLink c.dns.results) c.domain name →
        ¬ Returns (dnsLink c.dns.results) name := by
      intro name hname hret
      obtain ⟨x, hx, rfl, hresults, hcount, hq⟩ :=
        exists_call_of_leads hquiet hloop (fun x hx => (h x hx).1) hname
      exact (h x hx).2 ⟨hresults ▸ hret, hcount ▸ hloop, hq⟩
    obtain ⟨l, hl⟩ := (exists_path_iff (finite_leads _ _)).mpr hends
    exact path_of_links hl rfl hquiet fun x hx => (h x hx).1
  · cases hnext : nextCall c with
    | none => exact ⟨_, .last hnext⟩
    | some c' =>
      obtain ⟨-, hbound, -, k, -, -, hcount, -⟩ := nextCall_cases hnext
      omega

/-- **The calls end** when their names fit and none of them goes around. -/
lemma exists_path (h : ∀ x, Leads nextCall c x → x.domain.length ≤ 125 ∧ ¬ Stuck x) :
    ∃ l, Path nextCall c l := by
  -- every result that arrives brings the counter closer to its bound
  induction hn : (maxLoopCount - c.dns.loop).toNat using Nat.strong_induction_on generalizing c with
  | _ n ih =>
    have hlater : ∀ c c' : DnsCall, (maxLoopCount - c.dns.loop).toNat = n →
        (∀ x, Leads nextCall c x → x.domain.length ≤ 125 ∧ ¬ Stuck x) → nextCall c = some c' →
          c.dns.loop < c'.dns.loop → ∃ l, Path nextCall c l := by
      intro c c' hn h hnext hlt
      obtain ⟨-, hbound, -⟩ := nextCall_cases hnext
      obtain ⟨l, hl⟩ := ih _ (by omega) (fun x hx => h x (.head hnext hx)) rfl
      exact ⟨_, .step hnext hl⟩
    by_cases hquiet : Quiet c.arrivals
    · exact exists_path_of_quiet hquiet h
    · -- until a result arrives, the calls come closer to it
      obtain ⟨i, hi⟩ := not_forall.mp hquiet
      clear hquiet
      induction i generalizing c with
      | zero =>
        cases hnext : nextCall c with
        | none => exact ⟨_, .last hnext⟩
        | some c' =>
          obtain ⟨-, -, -, k, -, -, hcount, -⟩ := nextCall_cases hnext
          refine hlater c c' hn h hnext ?_
          have hpos := List.length_pos_iff.mpr hi
          rw [hcount, arrived_succ, List.length_append]
          omega
      | succ i ihi =>
        cases hnext : nextCall c with
        | none => exact ⟨_, .last hnext⟩
        | some c' =>
          obtain ⟨-, -, -, k, harr, -, hcount, hk⟩ := nextCall_cases hnext
          by_cases hempty : arrived c.arrivals (k + 1) = []
          · obtain rfl : k = 0 := hk.resolve_right fun hne => hne hempty
            rw [hempty, List.length_nil, Nat.cast_zero, add_zero] at hcount
            obtain ⟨l, hl⟩ := ihi (fun x hx => h x (.head hnext hx)) (hcount ▸ hn)
              (by rw [harr]; exact hi)
            exact ⟨_, .step hnext hl⟩
          · refine hlater c c' hn h hnext ?_
            have hpos := List.length_pos_iff.mpr hempty
            omega

/-! ### Chains -/

variable {links ip : ℕ}

/-- What a call does at the end of a chain. -/
lemma dnsCall_address {result : DnsResult} (hlen : c.domain.length ≤ 125)
    (hfind : dnsFindResult c.dns.results (dnsQname c.domain) = some result)
    (hip : result.ipv4 ≠ 0) : ∃ dns, dnsCall c = .ok (.inl (result.ipv4, dns)) := by
  obtain ⟨dns, hcall, -⟩ := dnsCall_cached hlen (dnsFindResult_append hfind)
  refine ⟨{ dns with loop := 0 }, ?_⟩
  rw [hcall, dnsFollow, if_pos hip]

/-- **The address at the end of a chain** is returned when the counter stays below its bound for as
long as there are links to follow. -/
lemma CachedChain.resolves {results : List DnsResult} {name : List UInt8}
    (h : CachedChain results name links ip) (hresults : results = c.dns.results)
    (hname : name = c.domain) (hlens : ∀ x, Leads nextCall c x → x.domain.length ≤ 125)
    (hloop : links = 0 ∨ c.dns.loop + (arrived c.arrivals links).length < maxLoopCount) :
    ∃ fuel dns, dnsResolveA fuel c = .ok (ip, dns) := by
  induction links generalizing c results name with
  | zero =>
    cases h with
    | address found ipv4 =>
      subst hresults hname
      obtain ⟨dns, hcall⟩ := dnsCall_address (hlens c .refl) found ipv4
      exact ⟨1, dns, by rw [dnsResolveA, hcall]; rfl⟩
  | succ links ih =>
    cases h with
    | @cname _ next _ _ link rest =>
      subst hresults hname
      obtain ⟨dns, hcall, hresults, hcount⟩ := dnsCall_link (hlens c .refl)
        (dnsLink_append link)
      have hbound := hloop.resolve_left (Nat.succ_ne_zero links)
      rw [arrived_succ, List.length_append, Nat.cast_add] at hbound
      rw [arrived_succ, List.length_append, Nat.cast_add, arrived, List.range_zero,
        List.flatMap_nil, List.length_nil, Nat.cast_zero, add_zero] at hcount
      rw [if_neg (by omega)] at hcall
      have hnext : nextCall c = some ⟨dns, fun i => c.arrivals (i + 1), next⟩ := by
        rw [nextCall, hcall]
      obtain ⟨fuel, dns', hres⟩ := ih (c := ⟨dns, fun i => c.arrivals (i + 1), next⟩)
        (hresults ▸ cachedChain_append rest) rfl rfl (fun x hx => hlens x (.head hnext hx))
        (.inr (by dsimp only; omega))
      exact ⟨fuel + 1, dns', by rw [dnsResolveA, hcall]; exact hres⟩

/-- A link whose end is returned was followed. -/
lemma followed {next : List UInt8} {dns : DnsProvider} (hres : dnsResolveA fuel c = .ok (ip, dns))
    (hlink : dnsLink c.dns.results c.domain = some next) (hip : ip ≠ 0) :
    ∃ dns', dns'.loop = c.dns.loop + (arrived c.arrivals 1).length ∧
      dns'.results = c.dns.results ++ arrived c.arrivals 1 ∧ dns'.loop < maxLoopCount ∧
      ∃ fuel, dnsResolveA fuel ⟨dns', fun i => c.arrivals (i + 1), next⟩ = .ok (ip, dns) := by
  cases fuel with
  | zero => exact nomatch hres
  | succ fuel =>
    rw [dnsResolveA, bind_eq_ok] at hres
    obtain ⟨r, hcall, hres⟩ := hres
    have hlen : c.domain.length ≤ 125 := by
      by_contra hlong
      rw [dnsCall, if_pos (dnsCall_overflow.mpr (not_le.mp hlong))] at hcall
      exact nomatch hcall
    obtain ⟨dns', hcall', hresults, hcount⟩ := dnsCall_link hlen (dnsLink_append hlink)
    obtain rfl := Except.ok.inj (hcall.symm.trans hcall')
    split_ifs at hres with hbound
    · obtain rfl : 0 = ip := congrArg Prod.fst (Except.ok.inj hres)
      exact absurd rfl hip
    · exact ⟨dns', hcount, hresults, not_le.mp hbound, fuel, hres⟩

/-- A chain whose address is returned was followed below the bound of the counter. -/
lemma CachedChain.loop_lt {results : List DnsResult} {name : List UInt8}
    (h : CachedChain results name (links + 1) ip) (hresults : results = c.dns.results)
    (hname : name = c.domain) {dns : DnsProvider} (hres : dnsResolveA fuel c = .ok (ip, dns)) :
    c.dns.loop + (arrived c.arrivals (links + 1)).length < maxLoopCount := by
  induction links generalizing c results name fuel with
  | zero =>
    cases h with
    | cname link rest =>
      subst hresults hname
      obtain ⟨dns', hcount, -, hbound, -⟩ := followed hres link rest.ne_zero
      exact hcount ▸ hbound
  | succ links ih =>
    cases h with
    | @cname _ next _ _ link rest =>
      subst hresults hname
      obtain ⟨dns', hcount, hresults, hbound, fuel, hres⟩ := followed hres link rest.ne_zero
      have hrest := ih (c := ⟨dns', fun i => c.arrivals (i + 1), next⟩)
        (hresults ▸ cachedChain_append rest) rfl rfl hres
      rw [arrived_succ, arrived, List.range_zero, List.flatMap_nil, List.append_nil] at hcount
      rw [arrived_succ, List.length_append, Nat.cast_add]
      dsimp only at hrest
      omega

/-! ### The resolution -/

/-- **Names that are resolved**: those whose calls all have names that fit and do not go around in
the cache, and where the counter stays below its bound for as long as there are cached links to
follow. -/
theorem resolved_iff (c : DnsCall) : Resolved c ↔
    (∀ x, Leads nextCall c x → x.domain.length ≤ 125 ∧ ¬ Stuck x) ∧
      ∀ links ip, 1 ≤ links → links ≤ 10 → CachedChain c.dns.results c.domain links ip →
        c.dns.loop + (arrived c.arrivals links).length < maxLoopCount := by
  constructor
  · rintro ⟨hreturns, hchains⟩
    obtain ⟨l, hl, hlens⟩ := returns_iff_path.mp hreturns
    refine ⟨fun x hx => ⟨hlens x (hl.mem_iff.mpr hx), fun hstuck => ?_⟩, ?_⟩
    · obtain ⟨l', hl'⟩ := hl.suffix hx
      refine hstuck.not_path hl' fun y hy => hlens y (hl.mem_iff.mpr ?_)
      exact hx.trans (hl'.mem_iff.mp hy)
    · intro links ip hpos hlinks hchain
      obtain ⟨fuel, dns, hres⟩ := hchains links ip hlinks hchain
      obtain ⟨links, rfl⟩ : ∃ k, links = k + 1 := ⟨links - 1, by omega⟩
      exact hchain.loop_lt rfl rfl hres
  · rintro ⟨hcalls, hloop⟩
    refine ⟨returns_iff_path.mpr ?_, fun links ip hlinks hchain => ?_⟩
    · obtain ⟨l, hl⟩ := exists_path hcalls
      exact ⟨l, hl, fun x hx => (hcalls x (hl.mem_iff.mp hx)).1⟩
    · refine hchain.resolves rfl rfl (fun x hx => (hcalls x hx).1) ?_
      rcases Nat.eq_zero_or_pos links with hzero | hpos
      · exact .inl hzero
      · exact .inr (hloop links ip hpos hlinks hchain)

end Run

/-- A name that is its own `CNAME`. -/
def selfResult : DnsResult where
  ipv4 := 0
  cname := fun i => if i = 0 then 97 else 0
  name := fun i => if i = 0 then 1 else if i = 1 then 97 else 0

/-- The resolution of a name that is its own `CNAME`. -/
def selfCname : DnsCall where
  dns := { results := [selfResult], loop := 0, waitForResponse := false }
  arrivals := fun _ => []
  domain := [97]

/-- A name that is its own `CNAME` is followed without end. -/
theorem self_cname_not_resolved : ¬ ∃ fuel r, dnsResolveA fuel selfCname = .ok r := by
  have hname : cString selfResult.name 256 = dnsQname [97] := rfl
  have hfind : dnsFindResult [selfResult] (dnsQname [97]) = some selfResult :=
    List.find?_cons_of_pos (by rw [hname]; rfl)
  have hlink : dnsLink [selfResult] [97] = some [97] := by
    rw [dnsLink, hfind]
    exact congrArg some (show cString selfResult.cname 256 = [97] from rfl)
  have hstuck : Stuck selfCname := ⟨.single hlink, by decide, fun _ => rfl⟩
  intro h
  obtain ⟨l, hl, hlens⟩ := returns_iff_path.mp h
  exact hstuck.not_path hl hlens

end MicroOS
