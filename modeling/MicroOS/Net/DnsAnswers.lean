import MicroOS.Net.DnsWalk

/-!
What `dns_udp_recv` makes of well-formed responses.

* `RecordsAt`, `WellFormedResponse`: the records of a response, of any types and lengths;
* `Recorded`: the address and the name that a result should have;
* `ReadInOrder`: what the handler needs of a response;
* `DnsAnswers.answered`: what a turn of the loop does to a record that is read at its place;
* `dnsAnswerTurn_answered`, `foldlM_answered`: the turn, and the loop;
* `dns_response_recorded`: **a response that is read in order is recorded**.
-/

namespace MicroOS

open ByteImage ByteMem Checked

/-! ### Well-formed responses -/

/-- A record: the labels of its owner, where its `dns_resource_t` stands, and the labels of the name
in its data when it is a `CNAME`. -/
structure ResourceRecord where
  owner : List (List UInt8)
  resource : ℕ
  target : List (List UInt8)

section Records

variable (mem : ℕ → UInt8)

/-- An `A` record with an address of four bytes. -/
def IsAddress (r : ResourceRecord) : Prop :=
  IsRecord mem 1 r.resource ∧ dataLen mem r.resource = 4

/-- A `CNAME` record. -/
def IsCname (r : ResourceRecord) : Prop := IsRecord mem 5 r.resource

instance (r : ResourceRecord) : Decidable (IsAddress mem r) :=
  inferInstanceAs (Decidable (_ ∧ _))

instance (r : ResourceRecord) : Decidable (IsCname mem r) :=
  inferInstanceAs (Decidable (IsRecord _ _ _))

/-- The data of a record. -/
def ResourceRecord.data (r : ResourceRecord) : ℕ := r.resource + dnsResourceSize

/-- **Records, one after the other**, from a position of a message on. -/
inductive RecordsAt (msg : List UInt8) : ℕ → List ResourceRecord → Prop where
  | nil {pos : ℕ} : RecordsAt msg pos []
  | cons {pos n : ℕ} {r : ResourceRecord} {records : List ResourceRecord}
      (owner : NameAt msg pos r.owner n) (resource : r.resource = pos + n)
      (inside : r.data + dataLen mem r.resource ≤ msg.length)
      (target : IsCname mem r → NameAt msg r.data r.target (dataLen mem r.resource))
      (rest : RecordsAt msg (r.data + dataLen mem r.resource) records) :
      RecordsAt msg pos (r :: records)

end Records

/-- **A well-formed response**: a question, and records of any types and lengths. Names have at most
255 bytes. -/
structure WellFormedResponse (msg : List UInt8) (mem : ℕ → UInt8) (question : List (List UInt8))
    (records : List ResourceRecord) : Prop where
  labels : ∀ label ∈ question, label ≠ [] ∧ label.length ≤ 63
  question_length : (wireLabels question).length ≤ 254
  question_bytes : Holds mem dnsHeaderSize (wireLabels question ++ [0])
  ancount_eq : ancount mem = records.length
  records_at : RecordsAt mem msg
    (dnsHeaderSize + (wireLabels question).length + 1 + dnsQuestionSize) records
  target_length : ∀ r ∈ records, (wireLabels r.target).length ≤ 254

/-! ### What should be recorded -/

/-- The last address. -/
def lastAddress (mem : ℕ → UInt8) (records : List ResourceRecord) (ipv4 : ℕ) : ℕ :=
  ((records.filter (IsAddress mem ·)).getLast?.map fun r => leValue mem r.data 4).getD ipv4

/-- The texts of the `CNAME` records. -/
def cnameTexts (mem : ℕ → UInt8) (records : List ResourceRecord) : List (List UInt8) :=
  (records.filter (IsCname mem ·)).map fun r => dottedText r.target

/-- The result has the last address and the last name. -/
structure Recorded (mem : ℕ → UInt8) (records : List ResourceRecord) (result : DnsResult) :
    Prop where
  ipv4 : result.ipv4 = lastAddress mem records 0
  cname : IsString result.cname ((cnameTexts mem records).getLast?.getD [])

/-- **The response is recorded**: the handler returns, and has added a result just when there is a
record that makes one. -/
def ResponseRecorded (mem : ℕ → UInt8) (records : List ResourceRecord) : Prop :=
  ∀ pages dns, ∃ fuel dns', dnsUdpRecv mem fuel pages dns = .ok dns' ∧
    if ∃ r ∈ records, IsAddress mem r ∨ IsCname mem r then
      ∃ result, dns'.results = dns.results ++ [result] ∧ Recorded mem records result
    else dns'.results = dns.results

/-! ### What the handler needs -/

/-- A record whose data the handler reads like a name. -/
def IsOther (mem : ℕ → UInt8) (r : ResourceRecord) : Prop :=
  ¬ IsRecord mem 1 r.resource ∧ ¬ IsCname mem r

/-- **What the handler needs of a response**: names whose label bytes are neither zero nor from 192
on; `CNAME`s that are not the root, and none that is longer than the last one; data of other types
whose walk ends, and ends where the record does when a record follows. -/
structure ReadInOrder (msg : List UInt8) (mem : ℕ → UInt8) (question : List (List UInt8))
    (records : List ResourceRecord) : Prop where
  question_plain : ∀ label ∈ question, 0 ∉ label
  question_copied : question = [] → ∃ k, 0 < k ∧ k ≤ 256 ∧ mem (dnsHeaderSize + k) = 0
  owner_plain : ∀ r ∈ records, ∀ label ∈ r.owner, ∀ b ∈ label, PlainByte b
  target_plain : ∀ r ∈ records, IsCname mem r → ∀ label ∈ r.target, ∀ b ∈ label, PlainByte b
  target_ne_nil : ∀ r ∈ records, IsCname mem r → r.target ≠ []
  last_longest : ∀ text ∈ cnameTexts mem records,
    text.length ≤ ((cnameTexts mem records).getLast?.getD []).length
  other_walk : ∀ r ∈ records, IsOther mem r → WalkEnds msg r.data
  other_extent : ∀ r ∈ records.dropLast, IsOther mem r →
    Extent mem r.data (dataLen mem r.resource)

/-! ### A turn of the loop -/

section Turn

variable {labels : List (List UInt8)} {msg : List UInt8} {beyond : ℕ → UInt8} {σ : Type}
  {put : σ → UInt8 → Except Halt σ}

/-- What the loop does inside a message it does in memory. -/
lemma nameLoop_payloadMem (beyond : ℕ → UInt8) {fuel pos count : ℕ} {jumped : Bool} {s : σ}
    {r : Bool × ℕ × σ}
    (h : nameLoop (readIn msg) put fuel pos jumped count s = .ok r) :
    nameLoop (readMem (payloadMem msg beyond)) put fuel pos jumped count s = .ok r := by
  have hread : ∀ {i b}, readIn msg i = .ok b → readMem (payloadMem msg beyond) i = .ok b := by
    intro i b hb
    have h := readsAs_payloadMem msg beyond i b (readIn_eq_ok hb).1
    rwa [Nat.zero_add] at h
  induction fuel generalizing pos jumped count s with
  | zero => exact nomatch h
  | succ fuel ih =>
    rw [nameLoop, bind_eq_ok] at h
    obtain ⟨b, hb, h⟩ := h
    rw [nameLoop, hread hb, ok_bind]
    by_cases hzero : b = 0
    · rw [if_pos hzero] at h ⊢
      exact h
    · rw [if_neg hzero] at h ⊢
      by_cases htag : 192 ≤ b
      · rw [if_pos htag, bind_eq_ok] at h
        obtain ⟨c, hc, h⟩ := h
        rw [if_pos htag, hread hc, ok_bind]
        exact ih h
      · rw [if_neg htag, bind_eq_ok] at h
        obtain ⟨t, ht, h⟩ := h
        rw [if_neg htag, ht, ok_bind]
        exact ih h

/-- Data whose walk ends is skipped, as far as it extends as a name. -/
lemma dnsResolvSkipName_walkEnds (beyond : ℕ → UInt8) {pos : ℕ} (h : WalkEnds msg pos) :
    ∃ n, Extent (payloadMem msg beyond) pos n ∧ ∃ m, ∀ fuel, m ≤ fuel →
      dnsResolvSkipName (readMem (payloadMem msg beyond)) fuel pos = .ok n := by
  obtain ⟨m, r, hreturn⟩ := dnsResolvSkipName_returns_iff.mpr h
  obtain ⟨⟨jumped, count, u⟩, hloop, -⟩ := bind_eq_ok.mp hreturn
  have hskip : ∀ fuel, m ≤ fuel →
      dnsResolvSkipName (readMem (payloadMem msg beyond)) fuel pos =
        .ok (countPointer jumped count) := by
    intro fuel hfuel
    rw [dnsResolvSkipName, nameLoop_mono (nameLoop_payloadMem beyond hloop) hfuel, ok_bind]
    rfl
  exact ⟨_, extent_of_skipName (hskip m le_rfl), m, hskip⟩

/-- What a turn of the loop does to a record that it reads at its place. -/
def DnsAnswers.answered (mem : ℕ → UInt8) (s : DnsAnswers) (r : ResourceRecord) : DnsAnswers :=
  if IsAddress mem r then
    { name := r.data + dataLen mem r.resource,
      result := { s.result with ipv4 := leValue mem r.data 4 },
      didGetResult := true }
  else if IsCname mem r then
    { name := r.data + dataLen mem r.resource,
      result := { s.result with cname := store s.result.cname 0 (dottedText r.target) },
      didGetResult := true }
  else { s with name := r.data + dataLen mem r.resource }

/-- An address is no canonical name. -/
lemma not_isCname {mem : ℕ → UInt8} {r : ResourceRecord} (h : IsRecord mem 1 r.resource) :
    ¬ IsCname mem r := by
  intro hcname
  have := h.1.symm.trans hcname.1
  omega

/-- Labels that are not empty have a text. -/
lemma dottedText_ne_nil (hne : labels ≠ []) (hlabels : ∀ label ∈ labels, label ≠ []) :
    dottedText labels ≠ [] := by
  obtain ⟨label, rest, rfl⟩ := List.exists_cons_of_ne_nil hne
  obtain ⟨b, hb⟩ := List.exists_mem_of_ne_nil label (hlabels label List.mem_cons_self)
  exact List.ne_nil_of_mem (mem_dottedText_of_mem List.mem_cons_self hb)

/-- The text is one byte shorter than the name on the line, the zero apart. -/
lemma length_dottedText (hne : labels ≠ []) :
    (dottedText labels).length + 1 = (wireLabels labels).length := by
  rw [← length_flatMap_dotted, flatMap_dotted hne, List.length_append, List.length_singleton]

/-- **A record that is read at its place**, and where the next one is read. -/
lemma dnsAnswerTurn_answered {r : ResourceRecord} {pos n : ℕ}
    (hname : NameAt msg pos r.owner n) (hresource : r.resource = pos + n)
    (htarget : IsCname (payloadMem msg beyond) r →
      NameAt msg r.data r.target (dataLen (payloadMem msg beyond) r.resource) ∧
        (∀ label ∈ r.target, ∀ b ∈ label, PlainByte b) ∧ r.target ≠ [] ∧
        (wireLabels r.target).length ≤ 254)
    (howner : ∀ label ∈ r.owner, ∀ b ∈ label, PlainByte b)
    (hother : IsOther (payloadMem msg beyond) r → WalkEnds msg r.data) :
    ∃ next, ((IsOther (payloadMem msg beyond) r → Extent (payloadMem msg beyond) r.data
          (dataLen (payloadMem msg beyond) r.resource)) →
        next = r.data + dataLen (payloadMem msg beyond) r.resource) ∧
      ∃ m, ∀ fuel, m ≤ fuel → ∀ page s, s.name = pos →
        dnsAnswerTurn (payloadMem msg beyond) fuel page s =
          .ok { s.answered (payloadMem msg beyond) r with name := next } := by
  have hreads := readsAs_payloadMem msg beyond
  obtain ⟨m, hskip⟩ := dnsResolvSkipName_named hname hreads howner
  have hwalk := fun h => dnsResolvSkipName_walkEnds beyond (hother h)
  set mem := payloadMem msg beyond with hmem
  -- an `A` record is taken when its data are four bytes
  by_cases hrecord : IsRecord mem 1 r.resource
  · refine ⟨_, fun _ => rfl, m, fun fuel hfuel page s hs => ?_⟩
    rw [dnsAnswerTurn, hs, hskip fuel hfuel, ok_bind]
    dsimp only
    rw [← hresource, if_pos hrecord]
    by_cases hlen : dataLen mem r.resource = 4
    · rw [if_pos hlen, DnsAnswers.answered, if_pos ⟨hrecord, hlen⟩]
      rfl
    · rw [if_neg hlen, DnsAnswers.answered, if_neg fun h => hlen h.2, if_neg (not_isCname hrecord)]
      rfl
  · have haddress : ¬ IsAddress mem r := fun h => hrecord h.1
    by_cases hcname : IsRecord mem 5 r.resource
    · -- a `CNAME` is expanded, and the name is copied
      obtain ⟨hat, hplain, hne, hlen⟩ := htarget hcname
      have hlength := length_dottedText hne
      obtain ⟨m', hread⟩ := dnsResolvHostnameToDomain_named hat hreads hplain hne
        (hlen.trans_lt (by decide))
      refine ⟨_, fun _ => rfl, max m m', fun fuel hfuel page s hs => ?_⟩
      obtain ⟨name, hname, hstring⟩ := hread fuel ((le_max_right m m').trans hfuel) page
      have htext : dottedText r.target ≠ [] :=
        dottedText_ne_nil hne fun label hlabel => (hat.length_label label hlabel).1
      have hcopy : strcpy name 256 = .ok (dottedText r.target) :=
        strcpy_ok htext hstring.zero_notMem (by omega) hstring.holds
      rw [dnsAnswerTurn, hs, hskip fuel ((le_max_left m m').trans hfuel), ok_bind]
      dsimp only
      rw [← hresource, if_neg hrecord, if_pos hcname, ← ResourceRecord.data, hname, ok_bind]
      dsimp only
      rw [hcopy, DnsAnswers.answered, if_neg haddress, if_pos (show IsCname mem r from hcname)]
      rfl
    · -- the data of any other record are skipped as if they were a name
      obtain ⟨stop, hextent, m', hdata⟩ := hwalk ⟨hrecord, hcname⟩
      refine ⟨r.data + stop, fun h => ?_, max m m', fun fuel hfuel page s hs => ?_⟩
      · rw [hextent.unique (h ⟨hrecord, hcname⟩)]
      · rw [dnsAnswerTurn, hs, hskip fuel ((le_max_left m m').trans hfuel), ok_bind]
        dsimp only
        rw [← hresource, if_neg hrecord, if_neg hcname, ← ResourceRecord.data,
          hdata fuel ((le_max_right m m').trans hfuel), DnsAnswers.answered, if_neg haddress,
          if_neg (show ¬ IsCname mem r from hcname)]
        rfl

/-- The next record begins behind the data of this one. -/
lemma DnsAnswers.answered_name (mem : ℕ → UInt8) (s : DnsAnswers) (r : ResourceRecord) :
    (s.answered mem r).name = r.data + dataLen mem r.resource := by
  rw [DnsAnswers.answered]
  split_ifs <;> rfl

end Turn

/-! ### The loop over the records -/

section Loop

variable {mem : ℕ → UInt8} {r : ResourceRecord} {records : List ResourceRecord} {s : DnsAnswers}

/-- A result is made just when a record makes one. -/
lemma foldl_answered_didGetResult :
    (records.foldl (DnsAnswers.answered mem) s).didGetResult = true ↔
    s.didGetResult = true ∨ ∃ r ∈ records, IsAddress mem r ∨ IsCname mem r := by
  induction records generalizing s with
  | nil => simp
  | cons r records ih =>
    rw [List.foldl_cons, ih, List.exists_mem_cons_iff, ← or_assoc]
    refine or_congr_left ?_
    rw [DnsAnswers.answered]
    split_ifs with haddress hcname
    · simp [haddress]
    · simp [hcname]
    · simp [haddress, hcname]

/-- The address is the last one. -/
lemma foldl_answered_ipv4 : (records.foldl (DnsAnswers.answered mem) s).result.ipv4 =
    lastAddress mem records s.result.ipv4 := by
  induction records generalizing s with
  | nil => rfl
  | cons r records ih =>
    rw [List.foldl_cons, ih, DnsAnswers.answered, lastAddress, lastAddress]
    split_ifs with haddress hcname
    · rw [List.filter_cons_of_pos (by simpa using haddress), List.getLast?_cons]
      cases (records.filter (IsAddress mem ·)).getLast? <;> rfl
    · rw [List.filter_cons_of_neg (by simpa using haddress)]
    · rw [List.filter_cons_of_neg (by simpa using haddress)]

/-- The names are stored over each other. -/
lemma foldl_answered_cname : (records.foldl (DnsAnswers.answered mem) s).result.cname =
    (cnameTexts mem records).foldl (store · 0 ·) s.result.cname := by
  induction records generalizing s with
  | nil => rfl
  | cons r records ih =>
    rw [List.foldl_cons, ih, DnsAnswers.answered, cnameTexts, cnameTexts]
    split_ifs with haddress hcname
    · rw [List.filter_cons_of_neg (by simpa using not_isCname haddress.1)]
    · rw [List.filter_cons_of_pos (by simpa using hcname)]
      rfl
    · rw [List.filter_cons_of_neg (by simpa using hcname)]

/-- Texts that are stored over each other do not reach behind the longest one. -/
lemma foldl_store_of_le {texts : List (List UInt8)} {a : ℕ → UInt8} {i : ℕ}
    (h : ∀ text ∈ texts, text.length ≤ i) : texts.foldl (store · 0 ·) a i = a i := by
  induction texts generalizing a with
  | nil => rfl
  | cons text texts ih =>
    obtain ⟨htext, h⟩ := List.forall_mem_cons.mp h
    rw [List.foldl_cons, ih h, store_of_disjoint (.inr (by omega))]

/-- **The last text** is the string that is left when no other one is longer. -/
lemma isString_foldl_store {texts : List (List UInt8)} (hzero : ∀ text ∈ texts, 0 ∉ text)
    (hlen : ∀ text ∈ texts, text.length ≤ (texts.getLast?.getD []).length) :
    IsString (texts.foldl (store · 0 ·) fun _ => 0) (texts.getLast?.getD []) := by
  rcases List.eq_nil_or_concat texts with rfl | ⟨texts, last, rfl⟩
  · exact ⟨List.not_mem_nil, holds_cons.mpr ⟨rfl, holds_nil⟩⟩
  · rw [List.concat_eq_append] at hzero hlen ⊢
    have hlast : (texts ++ [last]).getLast?.getD [] = last := by simp
    rw [hlast] at hlen ⊢
    rw [List.foldl_append, List.foldl_cons, List.foldl_nil]
    refine ⟨hzero last (by simp), holds_append.mpr ⟨holds_store, holds_cons.mpr ⟨?_, holds_nil⟩⟩⟩
    rw [store_of_disjoint (.inr le_rfl), foldl_store_of_le]
    intro text htext
    rw [Nat.zero_add]
    exact hlen text (List.mem_append_left _ htext)

/-- **The loop over records that are read in order.** -/
lemma foldlM_answered {msg : List UInt8} {beyond : ℕ → UInt8} {pos : ℕ}
    (hrecords : RecordsAt (payloadMem msg beyond) msg pos records)
    (howner : ∀ r ∈ records, ∀ label ∈ r.owner, ∀ b ∈ label, PlainByte b)
    (htarget : ∀ r ∈ records, IsCname (payloadMem msg beyond) r →
      (∀ label ∈ r.target, ∀ b ∈ label, PlainByte b) ∧ r.target ≠ [] ∧
        (wireLabels r.target).length ≤ 254)
    (hwalk : ∀ r ∈ records, IsOther (payloadMem msg beyond) r → WalkEnds msg r.data)
    (hextent : ∀ r ∈ records.dropLast, IsOther (payloadMem msg beyond) r →
      Extent (payloadMem msg beyond) r.data (dataLen (payloadMem msg beyond) r.resource)) :
    ∃ m, ∀ fuel, m ≤ fuel → ∀ (pages : ℕ → ℕ → UInt8) (l : List ℕ), l.length = records.length →
      ∀ s, s.name = pos → ∃ next,
        l.foldlM (fun s i => dnsAnswerTurn (payloadMem msg beyond) fuel (pages i) s) s =
          .ok { records.foldl (DnsAnswers.answered (payloadMem msg beyond)) s with
            name := next } := by
  induction hrecords with
  | nil =>
    refine ⟨0, fun fuel _ pages l hl s _ => ⟨s.name, ?_⟩⟩
    rw [List.length_eq_zero_iff.mp hl]
    rfl
  | @cons pos n r records owner resource inside target rest ih =>
    obtain ⟨howner, howners⟩ := List.forall_mem_cons.mp howner
    obtain ⟨htarget, htargets⟩ := List.forall_mem_cons.mp htarget
    obtain ⟨hwalk, hwalks⟩ := List.forall_mem_cons.mp hwalk
    obtain ⟨next, hnext, m', hturn⟩ := dnsAnswerTurn_answered owner resource
      (fun h => ⟨target h, htarget h⟩) howner hwalk
    by_cases hlast : records = []
    · -- where the next record would be makes no difference
      subst hlast
      refine ⟨m', fun fuel hfuel pages l hl s hs => ⟨next, ?_⟩⟩
      obtain ⟨i, rfl⟩ := List.length_eq_one_iff.mp hl
      rw [List.foldlM_cons, hturn fuel hfuel _ s hs]
      rfl
    · rw [List.dropLast_cons_of_ne_nil hlast] at hextent
      obtain ⟨hextent, hextents⟩ := List.forall_mem_cons.mp hextent
      obtain ⟨m, hrest⟩ := ih howners htargets hwalks hextents
      refine ⟨max m m', fun fuel hfuel pages l hl s hs => ?_⟩
      obtain ⟨i, l, rfl⟩ := List.exists_cons_of_length_eq_add_one hl
      have hanswered : { s.answered (payloadMem msg beyond) r with name := next } =
          s.answered (payloadMem msg beyond) r := by
        rw [hnext hextent, ← DnsAnswers.answered_name _ s r]
      rw [List.foldlM_cons, hturn fuel ((le_max_right m m').trans hfuel) _ s hs, hanswered,
        ok_bind, List.foldl_cons]
      exact hrest fuel ((le_max_left m m').trans hfuel) pages l (Nat.succ.inj hl) _
        (DnsAnswers.answered_name _ s r)

end Loop

/-! ### Responses that are recorded -/

section Recorded

variable {msg : List UInt8} {beyond : ℕ → UInt8} {question : List (List UInt8)}
  {records : List ResourceRecord}

/-- `strlen` of a string. -/
lemma strlenAt_of_isString {mem : ℕ → UInt8} {x : List UInt8} {base : ℕ} (hzero : 0 ∉ x)
    (h : Holds mem base (x ++ [0])) {fuel : ℕ} (hfuel : x.length < fuel) :
    strlenAt mem fuel base = .ok x.length := by
  induction x generalizing base fuel with
  | nil =>
    obtain ⟨fuel, rfl⟩ : ∃ f, fuel = f + 1 := ⟨fuel - 1, by omega⟩
    exact if_pos (holds_cons.mp h).1
  | cons b x ih =>
    obtain ⟨fuel, rfl⟩ : ∃ f, fuel = f + 1 := ⟨fuel - 1, by omega⟩
    obtain ⟨hb, hx⟩ := List.ne_and_not_mem_of_not_mem_cons hzero
    obtain ⟨hbyte, hrest⟩ := holds_cons.mp h
    rw [strlenAt, if_neg (fun h => hb (h.symm.trans hbyte)),
      ih hx hrest (Nat.lt_of_succ_lt_succ hfuel)]
    rfl

/-- No byte of the labels of a question is zero. -/
lemma zero_notMem_wireLabels (hlabels : ∀ label ∈ question, label ≠ [] ∧ label.length ≤ 63)
    (hplain : ∀ label ∈ question, 0 ∉ label) : 0 ∉ wireLabels question := by
  intro hmem
  obtain ⟨label, hlabel, hb⟩ := List.mem_flatMap.mp hmem
  obtain ⟨hne, hlen⟩ := hlabels label hlabel
  rcases List.mem_cons.mp hb with hlength | hb
  · have hnat := congrArg UInt8.toNat hlength
    rw [UInt8.toNat_ofNat_of_lt' (hlen.trans_lt (by norm_num))] at hnat
    exact hne (List.length_eq_zero_iff.mp hnat.symm)
  · exact hplain label hlabel hb

/-- `strcpy` to an array finds a zero that is not the first byte. -/
lemma exists_strcpy (src : ℕ → UInt8) {room : ℕ} (h : ∃ k, 0 < k ∧ k ≤ room ∧ src k = 0) :
    ∃ chars, strcpy src room = .ok chars := by
  obtain ⟨hpos, hroom, hzero⟩ := Nat.find_spec h
  refine ⟨_, strcpy_of_zero hpos hroom hzero fun i hi hlt heq => ?_⟩
  exact Nat.find_min h hlt ⟨hi, hlt.le.trans hroom, heq⟩

/-- The question of a well-formed response. -/
lemma dnsQuestion_of_wellFormed {mem : ℕ → UInt8}
    (h : WellFormedResponse msg mem question records) (hplain : ∀ label ∈ question, 0 ∉ label)
    (hcopied : question = [] → ∃ k, 0 < k ∧ k ≤ 256 ∧ mem (dnsHeaderSize + k) = 0) {fuel : ℕ}
    (hfuel : (wireLabels question).length < fuel) :
    ∃ name, dnsQuestion mem fuel = .ok
      ⟨dnsHeaderSize + (wireLabels question).length + 1 + dnsQuestionSize,
        ⟨0, fun _ => 0, name⟩, false⟩ := by
  have hend : ∃ k, 0 < k ∧ k ≤ 256 ∧ mem (dnsHeaderSize + k) = 0 := by
    by_cases hne : question = []
    · exact hcopied hne
    · have hlength := length_le_wireLabels question
      have hpos := List.length_pos_iff.mpr hne
      have hmax := h.question_length
      exact ⟨_, by omega, by omega, (holds_append.mp h.question_bytes).2 0 0 rfl⟩
  obtain ⟨chars, hcopy⟩ := exists_strcpy (fun i => mem (dnsHeaderSize + i)) hend
  refine ⟨store (fun _ => 0) 0 chars, ?_⟩
  rw [dnsQuestion, strlenAt_of_isString (zero_notMem_wireLabels h.labels hplain)
    h.question_bytes hfuel, ok_bind, hcopy]
  rfl

/-- **A response that is read in order is recorded.** -/
theorem dns_response_recorded
    (hform : WellFormedResponse msg (payloadMem msg beyond) question records)
    (horder : ReadInOrder msg (payloadMem msg beyond) question records) :
    ResponseRecorded (payloadMem msg beyond) records := by
  intro pages dns
  obtain ⟨m, hloop⟩ := foldlM_answered hform.records_at horder.owner_plain
    (fun r hr hcname => ⟨horder.target_plain r hr hcname, horder.target_ne_nil r hr hcname,
      hform.target_length r hr⟩) horder.other_walk horder.other_extent
  set fuel := max m ((wireLabels question).length + 1) with hfuel
  obtain ⟨name, hquestion⟩ := dnsQuestion_of_wellFormed hform horder.question_plain
    horder.question_copied (le_max_right m _)
  set s : DnsAnswers := ⟨dnsHeaderSize + (wireLabels question).length + 1 + dnsQuestionSize,
    ⟨0, fun _ => 0, name⟩, false⟩ with hs
  obtain ⟨next, hturns⟩ := hloop fuel (le_max_left m _) pages
    (List.range (ancount (payloadMem msg beyond))) (by rw [List.length_range, hform.ancount_eq])
    s rfl
  set t := records.foldl (DnsAnswers.answered (payloadMem msg beyond)) s with ht
  have hgot : t.didGetResult = true ↔ _ := foldl_answered_didGetResult
  have hzero : ∀ text ∈ cnameTexts (payloadMem msg beyond) records, 0 ∉ text := by
    intro text htext hmem
    obtain ⟨r, hr, rfl⟩ := List.mem_map.mp htext
    obtain ⟨hr, hcname⟩ := List.mem_filter.mp hr
    rcases mem_dottedText hmem with h | ⟨label, hlabel, h⟩
    · exact absurd h (by decide)
    · exact (horder.target_plain r hr (by simpa using hcname) label hlabel 0 h).1 rfl
  refine ⟨fuel, dns.received { t with name := next },
    by rw [dnsUdpRecv_eq, dnsTurns, hquestion, ok_bind, hturns, ok_bind], ?_⟩
  split_ifs with hany
  · refine ⟨t.result, ?_, foldl_answered_ipv4, ?_⟩
    · rw [DnsProvider.received, if_pos (hgot.mpr (.inr hany))]
    · rw [ht, foldl_answered_cname]
      exact isString_foldl_store hzero horder.last_longest
  · rw [DnsProvider.received, if_neg fun h => ?_]
    exact (hgot.mp h).elim Bool.false_ne_true hany

end Recorded

/-- A name server and an address. -/
def nameServerResponse : List UInt8 :=
  [0x0f, 0xf0, 0, 0, 0, 1, 0, 2, 0, 0, 0, 0] ++ [1, 97, 0] ++ [0, 1, 0, 1] ++
    ([192, 12] ++ [0, 2, 0, 1, 0, 0, 0, 0, 0, 3] ++ [1, 98, 0]) ++
    ([192, 12] ++ [0, 1, 0, 1, 0, 0, 0, 0, 0, 4] ++ [1, 2, 3, 4])

/-- A name server between the question and the address. -/
theorem dns_response_recorded_nameServer :
    ResponseRecorded (payloadMem nameServerResponse fun _ => 0)
      [⟨[[97]], 21, []⟩, ⟨[[97]], 36, []⟩] := by
  have hquestion : NameAt nameServerResponse 12 [[97]] 3 :=
    .label (by decide) (by decide) (by decide) (.root rfl)
  refine @dns_response_recorded nameServerResponse (fun _ => 0) [[97]] _ ?_ ?_
  · refine ⟨by decide, by decide, ?_, rfl, ?_, by decide⟩
    · exact holds_cons.mpr ⟨rfl, holds_cons.mpr ⟨rfl, holds_cons.mpr ⟨rfl, holds_nil⟩⟩⟩
    · refine .cons (.pointer (b := 192) (c := 12) (by decide) rfl rfl hquestion) rfl (by decide)
        (fun h => absurd h (by decide)) ?_
      exact .cons (.pointer (b := 192) (c := 12) (by decide) rfl rfl hquestion) rfl (by decide)
        (fun h => absurd h (by decide)) .nil
  · refine ⟨by simp, fun h => absurd h (by decide), by simp [PlainByte], by simp, by decide,
      by decide, ?_, ?_⟩
    · refine List.forall_mem_cons.mpr ⟨fun _ => ?_, List.forall_mem_singleton.mpr fun h => ?_⟩
      · refine walkEnds_iff.mpr ⟨[31, 32, 33], ?_, by decide⟩
        exact .step rfl (.step rfl (.last rfl))
      · exact absurd (by decide) h.1
    · refine List.forall_mem_singleton.mpr fun _ => ?_
      exact .plain (by decide) (.plain (by decide) (.zero rfl))

/-- A text and an address. -/
def textResponse : List UInt8 :=
  [0x0f, 0xf0, 0, 0, 0, 1, 0, 2, 0, 0, 0, 0] ++ [1, 97, 0] ++ [0, 1, 0, 1] ++
    ([192, 12] ++ [0, 16, 0, 1, 0, 0, 0, 0, 0, 2] ++ [1, 98]) ++
    ([192, 12] ++ [0, 1, 0, 1, 0, 0, 0, 0, 0, 4] ++ [1, 2, 3, 4])

/-- Behind a text the address is missed. -/
theorem address_behind_text_missed :
    WellFormedResponse textResponse (payloadMem textResponse fun _ => 0) [[97]]
        [⟨[[97]], 21, []⟩, ⟨[[97]], 35, []⟩] ∧
      ¬ ResponseRecorded (payloadMem textResponse fun _ => 0)
        [⟨[[97]], 21, []⟩, ⟨[[97]], 35, []⟩] := by
  have hquestion : NameAt textResponse 12 [[97]] 3 :=
    .label (by decide) (by decide) (by decide) (.root rfl)
  refine ⟨⟨by decide, by decide, ?_, rfl, ?_, by decide⟩, fun h => ?_⟩
  · exact holds_cons.mpr ⟨rfl, holds_cons.mpr ⟨rfl, holds_cons.mpr ⟨rfl, holds_nil⟩⟩⟩
  · refine .cons (.pointer (b := 192) (c := 12) (by decide) rfl rfl hquestion) rfl (by decide)
      (fun h => absurd h (by decide)) ?_
    exact .cons (.pointer (b := 192) (c := 12) (by decide) rfl rfl hquestion) rfl (by decide)
      (fun h => absurd h (by decide)) .nil
  · -- with eight turns of every loop the handler returns without a result
    obtain ⟨t, hturns, hnone⟩ : ∃ t, dnsTurns (payloadMem textResponse fun _ => 0) 8
        (fun _ _ => 0) (ancount (payloadMem textResponse fun _ => 0)) = .ok t ∧
          t.didGetResult = false := ⟨_, rfl, rfl⟩
    obtain ⟨fuel, dns', hrecv, hresult⟩ := h (fun _ _ => 0) emptyCache
    rw [if_pos (by decide)] at hresult
    obtain ⟨result, hresult, -⟩ := hresult
    rw [dnsUdpRecv_eq, bind_eq_ok] at hrecv
    obtain ⟨t', hturns', hrecv⟩ := hrecv
    obtain rfl := Except.ok.inj hrecv
    have hnone' : t'.didGetResult ≠ true := by
      rw [Ne, dnsTurns_didGetResult hturns', ← dnsTurns_didGetResult hturns, hnone]
      exact Bool.false_ne_true
    rw [DnsProvider.received, if_neg hnone'] at hresult
    exact absurd hresult (by simp [emptyCache])

end MicroOS
