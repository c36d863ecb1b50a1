import MicroOS.Net.DnsName

/-!
`dns_udp_recv` of `net/dns.c`.

* `dnsAnswerTurn`: a turn of its loop over the answers; `dnsTurns`: so many turns;
* `dnsUdpRecv`: what a response does to the cache of results; `dnsUdpRecv_eq` says it in one line;
* `Extent`: how far a name extends for the readers; `Listed`: the records that a response lists;
* `foreign_response_iff`: when a response to another query leaves the cache alone.

Memory is a function from positions behind the start of the payload, so that what lies behind the
payload is a part of it.
-/

namespace MicroOS

open ByteImage ByteMem Checked

/-! ### The cache -/

/-- `dns_result_t`. -/
structure DnsResult where
  ipv4 : ℕ
  cname : ℕ → UInt8
  name : ℕ → UInt8

/-- `dns_provider_t`, without its socket. `loop` is an `int` that grows with `results`, whose
entries take 516 bytes each: it stays below `2 ^ 23`, so that it does not overflow. -/
structure DnsProvider where
  results : List DnsResult
  loop : ℤ
  waitForResponse : Bool

/-! ### The handler -/

section Model

variable (mem : ℕ → UInt8) (fuel : ℕ)

/-- `strlen` of the string at a position. -/
def strlenAt : ℕ → ℕ → Except Halt ℕ
  | 0, _ => .error .loops
  | fuel + 1, i =>
    if mem i = 0 then .ok 0
    else do return (← strlenAt fuel (i + 1)) + 1

/-- `BSWAP16` of a field. -/
def bswap16At (i : ℕ) : ℕ := (mem i).toNat * 256 + (mem (i + 1)).toNat

/-- `sizeof(dnshdr_t)`, `sizeof(dns_question_t)` and `sizeof(dns_resource_t)`. -/
def dnsHeaderSize : ℕ := 12

@[inherit_doc dnsHeaderSize] def dnsQuestionSize : ℕ := 4

@[inherit_doc dnsHeaderSize] def dnsResourceSize : ℕ := 10

/-- The test on `type` and `_class` of the record whose `dns_resource_t` is at a position. -/
def IsRecord (type resource : ℕ) : Prop :=
  bswap16At mem resource = type ∧ bswap16At mem (resource + 2) = 1

instance (type resource : ℕ) : Decidable (IsRecord mem type resource) :=
  inferInstanceAs (Decidable (_ ∧ _))

/-- `data_len` of a record. -/
def dataLen (resource : ℕ) : ℕ := bswap16At mem (resource + 8)

/-- The variables of the loop over the answers: `name`, `result` and `did_get_result`. -/
structure DnsAnswers where
  name : ℕ
  result : DnsResult
  didGetResult : Bool

/-- A turn of the loop over the answers, with the page that a name gets. -/
def dnsAnswerTurn (page : ℕ → UInt8) (s : DnsAnswers) : Except Halt DnsAnswers := do
  let stop ← dnsResolvSkipName (readMem mem) fuel s.name
  let resource := s.name + stop
  let name := resource + dnsResourceSize
  if IsRecord mem 1 resource then
    let s := if dataLen mem resource = 4 then
      { s with result := { s.result with ipv4 := leValue mem name 4 }, didGetResult := true } else s
    return { s with name := name + dataLen mem resource }
  else if IsRecord mem 5 resource then
    let (stop, out) ← dnsResolvHostnameToDomain (readMem mem) fuel name page
    let chars ← strcpy out 256
    return { name := name + stop,
             result := { s.result with cname := store s.result.cname 0 chars },
             didGetResult := true }
  else
    let stop ← dnsResolvSkipName (readMem mem) fuel name
    return { s with name := name + stop }

/-- What is in front of the loop over the answers. -/
def dnsQuestion : Except Halt DnsAnswers := do
  let len ← strlenAt mem fuel dnsHeaderSize
  let chars ← strcpy (fun i => mem (dnsHeaderSize + i)) 256
  return { name := dnsHeaderSize + len + 1 + dnsQuestionSize,
           result := { ipv4 := 0, cname := fun _ => 0, name := store (fun _ => 0) 0 chars },
           didGetResult := false }

/-- So many turns of the loop over the answers. -/
def dnsTurns (pages : ℕ → ℕ → UInt8) (n : ℕ) : Except Halt DnsAnswers := do
  (List.range n).foldlM (fun s i => dnsAnswerTurn mem fuel (pages i) s) (← dnsQuestion mem fuel)

/-- `ancount`. -/
def ancount : ℕ := bswap16At mem 6

/-- `dns_udp_recv`. -/
def dnsUdpRecv (pages : ℕ → ℕ → UInt8) (dns : DnsProvider) : Except Halt DnsProvider := do
  let dns := if leValue mem 0 2 ≠ 0xf00f then { dns with waitForResponse := false } else dns
  let s ← dnsTurns mem fuel pages (ancount mem)
  let dns := if s.didGetResult then
    { dns with loop := dns.loop + 1, results := dns.results ++ [s.result] } else dns
  return { dns with waitForResponse := false }

end Model

/-! ### Records of a response -/

section Listed

variable {mem : ℕ → UInt8} {pos n : ℕ}

/-- **How far a name extends** for both readers: up to the first zero, or over the first pointer. -/
inductive Extent (mem : ℕ → UInt8) : ℕ → ℕ → Prop where
  | zero {pos : ℕ} (here : mem pos = 0) : Extent mem pos 1
  | pointer {pos : ℕ} (here : 192 ≤ mem pos) : Extent mem pos 2
  | plain {pos n : ℕ} (here : PlainByte (mem pos)) (rest : Extent mem (pos + 1) n) :
      Extent mem pos (n + 1)

/-- A name has one extent. -/
lemma Extent.unique {m : ℕ} (h : Extent mem pos n) (h' : Extent mem pos m) : n = m := by
  induction h generalizing m with
  | zero here =>
    cases h' with
    | zero _ => rfl
    | pointer here' => exact absurd (here ▸ here') (by decide)
    | plain here' _ => exact absurd here here'.1
  | pointer here =>
    cases h' with
    | zero here' => exact absurd (here' ▸ here) (by decide)
    | pointer _ => rfl
    | plain here' _ => exact absurd here'.2 (UInt8.not_lt.mpr here)
  | plain here rest ih =>
    cases h' with
    | zero here' => exact absurd here' here.1
    | pointer here' => exact absurd here.2 (UInt8.not_lt.mpr here')
    | plain _ rest' => rw [ih rest']

section NameLoop

variable {σ : Type} {put : σ → UInt8 → Except Halt σ} {fuel count : ℕ} {s : σ} {r : Bool × ℕ × σ}

/-- After a pointer nothing is counted. -/
lemma nameLoop_jumped (h : nameLoop (readMem mem) put fuel pos true count s = .ok r) :
    r.1 = true ∧ r.2.1 = count := by
  induction fuel generalizing pos s with
  | zero => exact nomatch h
  | succ fuel ih =>
    rw [nameLoop, readMem, ok_bind] at h
    by_cases hzero : mem pos = 0
    · rw [if_pos hzero] at h
      obtain rfl := Except.ok.inj h
      exact ⟨rfl, rfl⟩
    · rw [if_neg hzero] at h
      by_cases htag : 192 ≤ mem pos
      · rw [if_pos htag, bind_eq_ok] at h
        obtain ⟨c, -, h⟩ := h
        exact ih h
      · rw [if_neg htag, bind_eq_ok] at h
        obtain ⟨t, -, h⟩ := h
        exact ih h

/-- **What the loop counts** is how far the name extends. -/
lemma nameLoop_extent (h : nameLoop (readMem mem) put fuel pos false count s = .ok r) :
    ∃ n, Extent mem pos n ∧ countPointer r.1 r.2.1 + 1 = count + n := by
  induction fuel generalizing pos count s with
  | zero => exact nomatch h
  | succ fuel ih =>
    rw [nameLoop, readMem, ok_bind] at h
    by_cases hzero : mem pos = 0
    · rw [if_pos hzero] at h
      obtain rfl := Except.ok.inj h
      exact ⟨1, .zero hzero, rfl⟩
    · rw [if_neg hzero] at h
      by_cases htag : 192 ≤ mem pos
      · rw [if_pos htag, bind_eq_ok] at h
        obtain ⟨c, -, h⟩ := h
        obtain ⟨hjumped, hcount⟩ := nameLoop_jumped h
        refine ⟨2, .pointer htag, ?_⟩
        rw [hjumped, hcount]
        rfl
      · rw [if_neg htag, bind_eq_ok] at h
        obtain ⟨t, -, h⟩ := h
        obtain ⟨n, hn, hcount⟩ := ih h
        refine ⟨n + 1, .plain ⟨hzero, UInt8.not_le.mp htag⟩ hn, ?_⟩
        rw [hcount, if_neg Bool.false_ne_true, Nat.add_assoc, Nat.add_comm 1]

end NameLoop

/-- What `dns_resolv_skip_name` returns is the extent of the name. -/
lemma extent_of_skipName {fuel : ℕ} (h : dnsResolvSkipName (readMem mem) fuel pos = .ok n) :
    Extent mem pos n := by
  rw [dnsResolvSkipName, bind_eq_ok] at h
  obtain ⟨⟨jumped, count, u⟩, hloop, h⟩ := h
  obtain ⟨m, hm, hcount⟩ := nameLoop_extent hloop
  obtain rfl : countPointer jumped count = n := Except.ok.inj h
  obtain rfl : m = countPointer jumped count := by
    dsimp only at hcount
    omega
  exact hm

/-- So is what `dns_resolv_hostname_to_domain` returns. -/
lemma extent_of_hostnameToDomain {fuel : ℕ} {page name : ℕ → UInt8}
    (h : dnsResolvHostnameToDomain (readMem mem) fuel pos page = .ok (n, name)) :
    Extent mem pos n := by
  rw [dnsResolvHostnameToDomain, bind_eq_ok] at h
  obtain ⟨name₀, -, h⟩ := h
  obtain ⟨⟨jumped, count, p, name₁⟩, hloop, h⟩ := bind_eq_ok.mp h
  obtain ⟨m, hm, hcount⟩ := nameLoop_extent hloop
  obtain ⟨name₂, -, h⟩ := bind_eq_ok.mp h
  obtain ⟨⟨i, name₃⟩, -, h⟩ := bind_eq_ok.mp h
  obtain ⟨name₄, -, h⟩ := bind_eq_ok.mp h
  obtain rfl : countPointer jumped count = n := congrArg Prod.fst (Except.ok.inj h)
  obtain rfl : m = countPointer jumped count := by
    dsimp only at hcount
    omega
  exact hm

/-- **The records that a response lists**: where the `dns_resource_t` of one of so many records
from a position on stands. -/
inductive Listed (mem : ℕ → UInt8) : ℕ → ℕ → ℕ → Prop where
  | here {k pos n : ℕ} (owner : Extent mem pos n) : Listed mem (k + 1) pos (pos + n)
  | behindAddress {k pos n resource : ℕ} (owner : Extent mem pos n)
      (address : IsRecord mem 1 (pos + n))
      (rest : Listed mem k (pos + n + dnsResourceSize + dataLen mem (pos + n)) resource) :
      Listed mem (k + 1) pos resource
  | behindName {k pos n m resource : ℕ} (owner : Extent mem pos n)
      (not_address : ¬ IsRecord mem 1 (pos + n))
      (data : Extent mem (pos + n + dnsResourceSize) m)
      (rest : Listed mem k (pos + n + dnsResourceSize + m) resource) :
      Listed mem (k + 1) pos resource

/-- A record that makes a result: an address of four bytes, or a name. -/
def IsAnswer (mem : ℕ → UInt8) (resource : ℕ) : Prop :=
  IsRecord mem 1 resource ∧ dataLen mem resource = 4 ∨ IsRecord mem 5 resource

/-- What a turn of the loop over the answers does to `name` and `did_get_result`. -/
lemma dnsAnswerTurn_cases {fuel : ℕ} {page : ℕ → UInt8} {s t : DnsAnswers}
    (h : dnsAnswerTurn mem fuel page s = .ok t) : ∃ n, Extent mem s.name n ∧
      (t.didGetResult = true ↔ s.didGetResult = true ∨ IsAnswer mem (s.name + n)) ∧
      ((IsRecord mem 1 (s.name + n) ∧
          t.name = s.name + n + dnsResourceSize + dataLen mem (s.name + n)) ∨
        ¬ IsRecord mem 1 (s.name + n) ∧ ∃ m, Extent mem (s.name + n + dnsResourceSize) m ∧
          t.name = s.name + n + dnsResourceSize + m) := by
  rw [dnsAnswerTurn, bind_eq_ok] at h
  obtain ⟨n, hskip, h⟩ := h
  refine ⟨n, extent_of_skipName hskip, ?_⟩
  dsimp only at h
  by_cases haddress : IsRecord mem 1 (s.name + n)
  · rw [if_pos haddress] at h
    have hname : ¬ IsRecord mem 5 (s.name + n) := fun hname => by
      have := haddress.1.symm.trans hname.1
      omega
    obtain rfl := Except.ok.inj h
    by_cases hlen : dataLen mem (s.name + n) = 4
    · simp [IsAnswer, haddress, hlen]
    · simp [IsAnswer, haddress, hlen, hname]
  · rw [if_neg haddress] at h
    by_cases hname : IsRecord mem 5 (s.name + n)
    · rw [if_pos hname, bind_eq_ok] at h
      obtain ⟨⟨m, out⟩, hread, h⟩ := h
      obtain ⟨chars, -, h⟩ := bind_eq_ok.mp h
      obtain rfl := Except.ok.inj h
      refine ⟨?_, .inr ⟨haddress, m, extent_of_hostnameToDomain hread, rfl⟩⟩
      simp [IsAnswer, hname]
    · rw [if_neg hname, bind_eq_ok] at h
      obtain ⟨m, hdata, h⟩ := h
      obtain rfl := Except.ok.inj h
      refine ⟨?_, .inr ⟨haddress, m, extent_of_skipName hdata, rfl⟩⟩
      simp [IsAnswer, haddress, hname]

/-- **The loop over the answers** makes a result when it meets a record that makes one. -/
lemma foldlM_didGetResult {fuel : ℕ} {pages : ℕ → ℕ → UInt8} {l : List ℕ} {s t : DnsAnswers}
    (h : l.foldlM (fun s i => dnsAnswerTurn mem fuel (pages i) s) s = .ok t) :
    t.didGetResult = true ↔ s.didGetResult = true ∨
      ∃ resource, Listed mem l.length s.name resource ∧ IsAnswer mem resource := by
  induction l generalizing s with
  | nil =>
    obtain rfl := Except.ok.inj h
    refine ⟨.inl, fun h => h.elim id ?_⟩
    rintro ⟨_, hlisted, -⟩
    exact nomatch hlisted
  | cons i l ih =>
    rw [List.foldlM_cons, bind_eq_ok] at h
    obtain ⟨u, hturn, h⟩ := h
    obtain ⟨n, howner, hgot, hnext⟩ := dnsAnswerTurn_cases hturn
    rw [ih h, hgot, or_assoc, List.length_cons]
    refine or_congr_right ⟨?_, ?_⟩
    · rintro (hhere | ⟨resource, hlisted, hanswer⟩)
      · exact ⟨_, .here howner, hhere⟩
      · rcases hnext with ⟨haddress, hu⟩ | ⟨hother, m, hdata, hu⟩
        · exact ⟨resource, .behindAddress howner haddress (hu ▸ hlisted), hanswer⟩
        · exact ⟨resource, .behindName howner hother hdata (hu ▸ hlisted), hanswer⟩
    · rintro ⟨resource, hlisted, hanswer⟩
      cases hlisted with
      | here howner' =>
        obtain rfl := howner.unique howner'
        exact .inl hanswer
      | behindAddress howner' haddress' hrest =>
        obtain rfl := howner.unique howner'
        rcases hnext with ⟨-, hu⟩ | ⟨hother, -⟩
        · exact .inr ⟨resource, hu ▸ hrest, hanswer⟩
        · exact absurd haddress' hother
      | behindName howner' hother' hdata' hrest =>
        obtain rfl := howner.unique howner'
        rcases hnext with ⟨haddress, -⟩ | ⟨-, m, hdata, hu⟩
        · exact absurd haddress hother'
        · obtain rfl := hdata.unique hdata'
          exact .inr ⟨resource, hu ▸ hrest, hanswer⟩

/-- The first zero from a position on. -/
lemma strlenAt_eq {fuel len : ℕ} (h : strlenAt mem fuel pos = .ok len) :
    mem (pos + len) = 0 ∧ ∀ i < len, mem (pos + i) ≠ 0 := by
  induction fuel generalizing pos len with
  | zero => exact nomatch h
  | succ fuel ih =>
    rw [strlenAt] at h
    by_cases hzero : mem pos = 0
    · rw [if_pos hzero] at h
      obtain rfl := Except.ok.inj h
      exact ⟨hzero, fun i hi => absurd hi (Nat.not_lt_zero i)⟩
    · rw [if_neg hzero, bind_eq_ok] at h
      obtain ⟨n, hn, h⟩ := h
      obtain rfl : n + 1 = len := Except.ok.inj h
      obtain ⟨hend, hchars⟩ := ih hn
      rw [Nat.add_right_comm] at hend
      refine ⟨hend, fun i hi => ?_⟩
      cases i with
      | zero => exact hzero
      | succ i =>
        have := hchars i (Nat.lt_of_succ_lt_succ hi)
        rwa [Nat.add_right_comm] at this

end Listed

/-! ### Responses to another query -/

/-- Where the answers of a response start: behind the question. -/
def AnswersAt (mem : ℕ → UInt8) (pos : ℕ) : Prop :=
  ∃ qname, IsString (fun i => mem (dnsHeaderSize + i)) qname ∧
    pos = dnsHeaderSize + qname.length + 1 + dnsQuestionSize

section Foreign

variable {mem : ℕ → UInt8} {fuel : ℕ} {pages : ℕ → ℕ → UInt8}

/-- What `strlen` measures is a string. -/
lemma isString_of_strlen {base len : ℕ} (h : strlenAt mem fuel base = .ok len) :
    IsString (fun i => mem (base + i)) ((List.range len).map fun i => mem (base + i)) := by
  obtain ⟨hend, hchars⟩ := strlenAt_eq h
  refine ⟨fun hzero => ?_, holds_append.mpr ⟨fun i b hb => ?_, holds_cons.mpr ⟨?_, holds_nil⟩⟩⟩
  · obtain ⟨i, hi, hbyte⟩ := List.mem_map.mp hzero
    exact hchars i (List.mem_range.mp hi) hbyte
  · obtain ⟨hi, rfl⟩ := List.getElem?_eq_some_iff.mp hb
    simp
  · simpa using hend

/-- A string has one length. -/
lemma IsString.unique {a : ℕ → UInt8} {x y : List UInt8} (hx : IsString a x) (hy : IsString a y) :
    x.length = y.length := by
  have hle : ∀ {x y : List UInt8}, IsString a x → IsString a y → x.length ≤ y.length := by
    intro x y hx hy
    by_contra hlt
    have hi : y.length < x.length := Nat.not_le.mp hlt
    have hchar := (holds_append.mp hx.holds).1 y.length _ (List.getElem?_eq_getElem hi)
    have hend := (holds_append.mp hy.holds).2 0 0 rfl
    rw [Nat.add_zero] at hend
    exact hx.zero_notMem ((hchar.symm.trans hend) ▸ List.getElem_mem hi)
  exact (hle hx hy).antisymm (hle hy hx)

/-- The answers start behind the question that is read. -/
lemma dnsQuestion_eq_ok {s : DnsAnswers} (h : dnsQuestion mem fuel = .ok s) :
    s.didGetResult = false ∧ ∀ pos, AnswersAt mem pos ↔ pos = s.name := by
  rw [dnsQuestion, bind_eq_ok] at h
  obtain ⟨len, hlen, h⟩ := h
  obtain ⟨chars, -, h⟩ := bind_eq_ok.mp h
  obtain rfl := Except.ok.inj h
  have hstring := isString_of_strlen hlen
  refine ⟨rfl, fun pos => ⟨?_, ?_⟩⟩
  · rintro ⟨qname, hq, rfl⟩
    rw [hq.unique hstring, List.length_map, List.length_range]
  · rintro rfl
    refine ⟨_, hstring, ?_⟩
    rw [List.length_map, List.length_range]

/-- The cache after the loop over the answers. -/
def DnsProvider.received (dns : DnsProvider) (t : DnsAnswers) : DnsProvider where
  results := if t.didGetResult then dns.results ++ [t.result] else dns.results
  loop := if t.didGetResult then dns.loop + 1 else dns.loop
  waitForResponse := false

/-- **`dns_udp_recv`**: the id of the response makes no difference. -/
lemma dnsUdpRecv_eq (dns : DnsProvider) : dnsUdpRecv mem fuel pages dns =
    dnsTurns mem fuel pages (ancount mem) >>= fun t => .ok (dns.received t) := by
  refine congrArg _ (funext fun t => congrArg Except.ok ?_)
  rw [DnsProvider.received]
  split_ifs <;> rfl

/-- A result is made just when a record that makes one is listed behind the question. -/
lemma dnsTurns_didGetResult {n : ℕ} {t : DnsAnswers} (h : dnsTurns mem fuel pages n = .ok t) :
    t.didGetResult = true ↔
      ∃ pos resource, AnswersAt mem pos ∧ Listed mem n pos resource ∧ IsAnswer mem resource := by
  rw [dnsTurns, bind_eq_ok] at h
  obtain ⟨s, hquestion, hturns⟩ := h
  obtain ⟨hfresh, hstart⟩ := dnsQuestion_eq_ok hquestion
  rw [foldlM_didGetResult hturns, hfresh, List.length_range]
  simp only [hstart, Bool.false_eq_true, false_or, exists_and_left, exists_eq_left]

/-- **Responses that leave the cache alone**: those that list no record that makes a result,
whatever their id. -/
theorem foreign_response_iff {dns dns' : DnsProvider}
    (h : dnsUdpRecv mem fuel pages dns = .ok dns') :
    (dns'.results = dns.results ∧ dns'.loop = dns.loop) ↔
      ∀ pos resource, AnswersAt mem pos → Listed mem (ancount mem) pos resource →
        ¬ IsAnswer mem resource := by
  rw [dnsUdpRecv_eq, bind_eq_ok] at h
  obtain ⟨t, hturns, h⟩ := h
  obtain rfl := Except.ok.inj h
  have hlisted : (∀ pos resource, AnswersAt mem pos → Listed mem (ancount mem) pos resource →
      ¬ IsAnswer mem resource) ↔ t.didGetResult = false := by
    rw [← Bool.not_eq_true, dnsTurns_didGetResult hturns]
    simp only [not_exists, not_and]
  rw [hlisted, DnsProvider.received]
  cases t.didGetResult <;> simp

end Foreign

/-- A response with id 0 and one address. -/
def forgedResponse : List UInt8 :=
  [0, 0, 0, 0, 0, 1, 0, 1, 0, 0, 0, 0] ++ [1, 97, 0] ++ [0, 1, 0, 1] ++
    ([0] ++ [0, 1, 0, 1, 0, 0, 0, 0, 0, 4] ++ [1, 2, 3, 4])

/-- The cache before any response. -/
def emptyCache : DnsProvider := { results := [], loop := 0, waitForResponse := true }

/-- The forged response leaves the empty cache alone just when it lists no record that makes a
result. -/
theorem foreign_response_iff_forged :
    let mem := payloadMem forgedResponse fun _ => 0
    ∃ dns', dnsUdpRecv mem 3 (fun _ _ => 0) emptyCache = .ok dns' ∧
      ((dns'.results = [] ∧ dns'.loop = 0) ↔
        ∀ pos resource, AnswersAt mem pos → Listed mem (ancount mem) pos resource →
          ¬ IsAnswer mem resource) :=
  ⟨_, rfl, @foreign_response_iff (payloadMem forgedResponse fun _ => 0) 3 (fun _ _ => 0)
    emptyCache _ rfl⟩

/-- A response with another id changes the cache. -/
theorem forged_response_cached :
    leValue (payloadMem forgedResponse fun _ => 0) 0 2 ≠ 0xf00f ∧
      ∃ dns', dnsUdpRecv (payloadMem forgedResponse fun _ => 0) 3 (fun _ _ => 0) emptyCache =
          .ok dns' ∧
        ¬ (dns'.results = emptyCache.results ∧ dns'.loop = emptyCache.loop) := by
  obtain ⟨t, hturns, hgot⟩ : ∃ t, dnsTurns (payloadMem forgedResponse fun _ => 0) 3
      (fun _ _ => 0) (ancount (payloadMem forgedResponse fun _ => 0)) = .ok t ∧
        t.didGetResult = true := ⟨_, rfl, rfl⟩
  refine ⟨by decide, emptyCache.received t, by rw [dnsUdpRecv_eq, hturns, ok_bind], fun h => ?_⟩
  simp [DnsProvider.received, hgot] at h

end MicroOS
