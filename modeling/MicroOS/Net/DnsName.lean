import MicroOS.Net.Payload
import MicroOS.Utils.String

/-!
Domain names in `net/dns.c`.

* `dnsResolvDomainToHostname`: a name in dotted form as labels with their lengths;
* `nameLoop`: the loop that both readers of names have, with what they do with a byte of a label;
* `dnsResolvSkipName`, `dnsResolvHostnameToDomain`: the readers;
* `NameAt`: a name in a message, with its labels and the bytes it takes up;
* `dns_name_round_trip`: a name that is encoded is read back;
* `name_measured_iff`: when both readers measure a name, and the second one returns its text.

Positions count from the start of the message. A reader gets a function that reads a byte, so that
reading outside a message can be told from reading inside.
-/

namespace MicroOS

open ByteImage ByteMem Checked

/-! ### Encoding -/

/-- The loop of `dns_resolv_domain_to_hostname` over the characters that are left, the zero at the
end among them: `dst_pos` at its end, and the buffer. -/
def domainLoop : List UInt8 → ℕ → ℕ → UInt8 → (ℕ → UInt8) → ℕ × (ℕ → UInt8)
  | [], _, dstPos, _, dst => (dstPos, dst)
  | c :: src, lbl, dstPos, currLen, dst =>
    if c = '.'.toUInt8 ∨ c = 0 then
      domainLoop src dstPos (dstPos + 1) 0 (Function.update dst lbl currLen)
    else domainLoop src lbl (dstPos + 1) (currLen + 1) (Function.update dst dstPos c)

/-- `dns_resolv_domain_to_hostname` of a string: where it stores last, and the buffer. -/
def dnsResolvDomainToHostname (dst : ℕ → UInt8) (srcDomain : List UInt8) : ℕ × (ℕ → UInt8) :=
  let (dstPos, dst) := domainLoop (srcDomain ++ [0]) 0 1 0 dst
  (dstPos, Function.update dst dstPos 0)

/-! ### Reading -/

section Readers

variable {σ : Type} (read : ℕ → Except Halt UInt8)

/-- The place that a compression pointer leads to. -/
def pointerTarget (b c : UInt8) : ℕ := b.toNat * 256 + c.toNat - 49152

/-- The loop of both readers from a position on, with `jumped` and `count`. `put` is what is done
with a byte of a label. -/
def nameLoop (put : σ → UInt8 → Except Halt σ) :
    ℕ → ℕ → Bool → ℕ → σ → Except Halt (Bool × ℕ × σ)
  | 0, _, _, _, _ => .error .loops
  | fuel + 1, reader, jumped, count, s => do
      let b ← read reader
      if b = 0 then return (jumped, count, s)
      else if 192 ≤ b then
        let c ← read (reader + 1)
        nameLoop put fuel (pointerTarget b c) true count s
      else
        let s ← put s b
        nameLoop put fuel (reader + 1) jumped (if jumped then count else count + 1) s

/-- The byte that both readers count for the second byte of a pointer. -/
def countPointer (jumped : Bool) (count : ℕ) : ℕ := if jumped then count + 1 else count

/-- `dns_resolv_skip_name`: the count. -/
def dnsResolvSkipName (fuel reader : ℕ) : Except Halt ℕ := do
  let (jumped, count, _) ← nameLoop read (fun _ _ => .ok ()) fuel reader false 1 ()
  return countPointer jumped count

/-- The size of a page. -/
def pageSize : ℕ := 4096

/-- `name[i] = b` in the page of a name. -/
def storeName (name : ℕ → UInt8) (i : ℕ) (b : UInt8) : Except Halt (ℕ → UInt8) :=
  if i < pageSize then .ok (Function.update name i b) else .error (.outOfBounds i)

/-- `name[p++] = b`. -/
def putName (s : ℕ × (ℕ → UInt8)) (b : UInt8) : Except Halt (ℕ × (ℕ → UInt8)) := do
  return (s.1 + 1, ← storeName s.2 s.1 b)

/-- `strlen` of the string in a page. -/
def strlenName (name : ℕ → UInt8) : ℕ := (List.range pageSize).findIdx fun i => name i = 0

/-- The inner loop of `dns_resolv_hostname_to_domain`, for so many more turns. -/
def shiftLabel : ℕ → ℕ → (ℕ → UInt8) → Except Halt (ℕ × (ℕ → UInt8))
  | 0, i, name => .ok (i, name)
  | n + 1, i, name =>
    if i + 1 < pageSize then do shiftLabel n (i + 1) (← storeName name i (name (i + 1)))
    else .error (.outOfBounds (i + 1))

/-- A `char` as an `unsigned int`. -/
def charUnsigned (c : UInt8) : ℕ := (charInt c % 2 ^ 32).toNat

/-- The loop of `dns_resolv_hostname_to_domain` that makes dots of lengths. -/
def dotLoop (len : ℕ) : ℕ → ℕ → (ℕ → UInt8) → Except Halt (ℕ × (ℕ → UInt8))
  | 0, _, _ => .error .loops
  | fuel + 1, i, name =>
    if i < len then do
      let (i, name) ← shiftLabel (charUnsigned (name i)) i name
      dotLoop len fuel (i + 1) (← storeName name i '.'.toUInt8)
    else .ok (i, name)

/-- `dns_resolv_hostname_to_domain` with the page that it allocates: the count, and the page. -/
def dnsResolvHostnameToDomain (fuel reader : ℕ) (page : ℕ → UInt8) :
    Except Halt (ℕ × (ℕ → UInt8)) := do
  let name ← storeName page 0 0
  let (jumped, count, p, name) ← nameLoop read putName fuel reader false 1 (0, name)
  let name ← storeName name p 0
  let len := strlenName name
  let (i, name) ← dotLoop len (len + 1) 0 name
  return (countPointer jumped count, ← storeName name (sub32 i 1) 0)

end Readers

/-! ### Names -/

/-- A label with its length in front. -/
def labelBytes (label : List UInt8) : List UInt8 := UInt8.ofNat label.length :: label

/-- Labels with their lengths. -/
def wireLabels (labels : List (List UInt8)) : List UInt8 := labels.flatMap labelBytes

/-- Labels with dots in between. -/
def dottedText (labels : List (List UInt8)) : List UInt8 := ['.'.toUInt8].intercalate labels

/-- **A well-formed name** at a position of a message, its labels when it is expanded, and how many
bytes it takes up at its position. -/
inductive NameAt (msg : List UInt8) : ℕ → List (List UInt8) → ℕ → Prop where
  | root {pos : ℕ} (zero : msg[pos]? = some 0) : NameAt msg pos [] 1
  | label {pos n : ℕ} {label : List UInt8} {labels : List (List UInt8)} (ne_nil : label ≠ [])
      (length_le : label.length ≤ 63) (bytes : labelBytes label <+: msg.drop pos)
      (rest : NameAt msg (pos + (label.length + 1)) labels n) :
      NameAt msg pos (label :: labels) (label.length + 1 + n)
  | pointer {pos n : ℕ} {b c : UInt8} {labels : List (List UInt8)} (tag : 192 ≤ b)
      (first : msg[pos]? = some b) (second : msg[pos + 1]? = some c)
      (target : NameAt msg (pointerTarget b c) labels n) : NameAt msg pos labels 2

variable {labels : List (List UInt8)} {label : List UInt8}

/-! ### Encoding and its result -/

/-- A store in front of another one. -/
lemma update_store (a : ℕ → UInt8) (off : ℕ) (x : List UInt8) (b : UInt8) :
    Function.update (store a (off + 1) x) off b = store a off (b :: x) := by
  rw [← store_update]
  funext i
  by_cases hi : i = off
  · rw [hi, Function.update_self, store_of_disjoint (.inl (Nat.lt_succ_self off)),
      Function.update_self]
  · rw [Function.update_of_ne hi, store, store, Function.update_of_ne hi]

/-- A store behind another one. -/
lemma store_store (a : ℕ → UInt8) (off : ℕ) (x y : List UInt8) :
    store (store a off x) (off + x.length) y = store a off (x ++ y) := by
  induction x generalizing a off with
  | nil => rw [store_nil, List.nil_append, List.length_nil, Nat.add_zero]
  | cons b x ih =>
    rw [List.cons_append, ← store_update, ← store_update, ← ih, List.length_cons,
      Nat.add_right_comm, Nat.add_assoc]

/-- The characters of a label are copied. -/
lemma domainLoop_label {rest : List UInt8} {lbl dstPos : ℕ} {currLen : UInt8} {dst : ℕ → UInt8}
    (hlabel : ∀ c ∈ label, c ≠ '.'.toUInt8 ∧ c ≠ 0) :
    domainLoop (label ++ rest) lbl dstPos currLen dst =
      domainLoop rest lbl (dstPos + label.length) (currLen + UInt8.ofNat label.length)
        (store dst dstPos label) := by
  induction label generalizing dstPos currLen dst with
  | nil =>
    rw [List.nil_append, List.length_nil, store_nil, Nat.add_zero]
    congr 1
    exact (UInt8.add_zero currLen).symm
  | cons c label ih =>
    obtain ⟨hc, hlabel⟩ := List.forall_mem_cons.mp hlabel
    rw [List.cons_append, domainLoop, if_neg (not_or.mpr hc), ih hlabel, store_update,
      List.length_cons, UInt8.ofNat_add, Nat.add_right_comm, Nat.add_assoc, UInt8.add_assoc,
      UInt8.add_comm 1]
    rfl

/-- A label and the character that ends it. -/
lemma domainLoop_ended {rest : List UInt8} {lbl : ℕ} {c : UInt8} {dst : ℕ → UInt8}
    (hlabel : ∀ c ∈ label, c ≠ '.'.toUInt8 ∧ c ≠ 0) (hc : c = '.'.toUInt8 ∨ c = 0) :
    domainLoop (label ++ c :: rest) lbl (lbl + 1) 0 dst =
      domainLoop rest (lbl + (labelBytes label).length) (lbl + (labelBytes label).length + 1) 0
        (store dst lbl (labelBytes label)) := by
  rw [domainLoop_label hlabel, domainLoop, if_pos hc, update_store, UInt8.zero_add, labelBytes,
    List.length_cons, Nat.add_right_comm lbl 1, Nat.add_assoc lbl]

lemma dottedText_singleton (label : List UInt8) : dottedText [label] = label :=
  List.intercalate_singleton

/-- The text of a label, a dot, and that of the others. -/
lemma dottedText_cons (label : List UInt8) (hne : labels ≠ []) :
    dottedText (label :: labels) = label ++ '.'.toUInt8 :: dottedText labels := by
  rw [dottedText, List.intercalate_cons_of_ne_nil hne, List.append_assoc, List.singleton_append]
  rfl

/-- The labels of a name are written one after the other. -/
lemma domainLoop_labels {lbl : ℕ} {dst : ℕ → UInt8} (hne : labels ≠ [])
    (hlabels : ∀ label ∈ labels, ∀ c ∈ label, c ≠ '.'.toUInt8 ∧ c ≠ 0) :
    domainLoop (dottedText labels ++ [0]) lbl (lbl + 1) 0 dst =
      (lbl + (wireLabels labels).length + 1, store dst lbl (wireLabels labels)) := by
  induction labels generalizing lbl dst with
  | nil => exact absurd rfl hne
  | cons label labels ih =>
    obtain ⟨hlabel, hlabels⟩ := List.forall_mem_cons.mp hlabels
    have hwire : wireLabels (label :: labels) = labelBytes label ++ wireLabels labels :=
      List.flatMap_cons
    by_cases hlast : labels = []
    · rw [hlast, dottedText_singleton, domainLoop_ended hlabel (.inr rfl), domainLoop]
      rw [hlast] at hwire
      rw [hwire, show wireLabels [] = [] from rfl, List.append_nil]
    · rw [dottedText_cons label hlast, List.append_assoc, List.cons_append,
        domainLoop_ended hlabel (.inl rfl), ih hlast hlabels, store_store, ← hwire]
      rw [hwire, List.length_append, Nat.add_assoc lbl]

/-- **`dns_resolv_domain_to_hostname`** stores the labels, and a zero one byte behind the place of
the zero that ends them. -/
lemma dnsResolvDomainToHostname_labels {dst : ℕ → UInt8} (hne : labels ≠ [])
    (hlabels : ∀ label ∈ labels, ∀ c ∈ label, c ≠ '.'.toUInt8 ∧ c ≠ 0) :
    dnsResolvDomainToHostname dst (dottedText labels) =
      ((wireLabels labels).length + 1,
        Function.update (store dst 0 (wireLabels labels)) ((wireLabels labels).length + 1) 0) := by
  rw [dnsResolvDomainToHostname, domainLoop_labels hne hlabels, Nat.zero_add]

/-- In a buffer of zeros the labels are ended. -/
lemma holds_hostname (hne : labels ≠ [])
    (hlabels : ∀ label ∈ labels, ∀ c ∈ label, c ≠ '.'.toUInt8 ∧ c ≠ 0) :
    Holds (dnsResolvDomainToHostname (fun _ => 0) (dottedText labels)).2 0
      (wireLabels labels ++ [0]) := by
  rw [dnsResolvDomainToHostname_labels hne hlabels]
  have hstored : Holds (store (fun _ => 0) 0 (wireLabels labels)) 0 (wireLabels labels ++ [0]) := by
    refine holds_append.mpr ⟨holds_store, holds_cons.mpr ⟨?_, holds_nil⟩⟩
    exact store_of_disjoint (.inr le_rfl)
  refine hstored.congr fun i _ hi => Function.update_of_ne ?_ _ _
  rw [List.length_append, List.length_singleton] at hi
  omega

/-! ### The loop over a name -/

/-- Bytes that the loop takes for bytes of labels. -/
def PlainByte (b : UInt8) : Prop := b ≠ 0 ∧ b < 192

instance (b : UInt8) : Decidable (PlainByte b) := inferInstanceAs (Decidable (_ ∧ _))

section NameLoop

variable {σ : Type} {read : ℕ → Except Halt UInt8} {put : σ → UInt8 → Except Halt σ}

/-- Bytes of labels are put where they go. -/
lemma nameLoop_plain {x : List UInt8} (hx : ∀ b ∈ x, PlainByte b) {pos : ℕ}
    (hread : ReadsAs read pos x) (fuel : ℕ) (jumped : Bool) (count : ℕ) (s : σ) :
    nameLoop read put (x.length + fuel) pos jumped count s = x.foldlM put s >>= fun s =>
      nameLoop read put fuel (pos + x.length) jumped
        (if jumped then count else count + x.length) s := by
  induction x generalizing pos count s with
  | nil =>
    rw [List.length_nil, Nat.zero_add, List.foldlM_nil, pure_bind]
    cases jumped <;> rfl
  | cons b x ih =>
    obtain ⟨⟨hzero, htag⟩, hx⟩ := List.forall_mem_cons.mp hx
    obtain ⟨hb, hread⟩ := readsAs_cons hread
    rw [List.length_cons, Nat.add_right_comm, nameLoop, hb, ok_bind, if_neg hzero,
      if_neg (UInt8.not_le.mpr htag), List.foldlM_cons, bind_assoc]
    refine congrArg _ (funext fun s => ?_)
    rw [ih hx hread, Nat.add_assoc pos, Nat.add_comm 1]
    cases jumped
    · rw [if_neg Bool.false_ne_true, if_neg Bool.false_ne_true, Nat.add_assoc count,
        Nat.add_comm 1]
      rfl
    · rfl

/-- The bytes of a label are plain, its length too. -/
lemma plain_labelBytes (hne : label ≠ []) (hlen : label.length ≤ 63)
    (hplain : ∀ b ∈ label, PlainByte b) : ∀ b ∈ labelBytes label, PlainByte b := by
  refine List.forall_mem_cons.mpr ⟨?_, hplain⟩
  have hpos := List.length_pos_iff.mpr hne
  have hnat : (UInt8.ofNat label.length).toNat = label.length :=
    UInt8.toNat_ofNat_of_lt' (hlen.trans_lt (by norm_num))
  refine ⟨fun hzero => ?_, UInt8.lt_iff_toNat_lt.mpr ?_⟩
  · rw [hzero] at hnat
    exact absurd hnat hpos.ne
  · rw [hnat]
    exact hlen.trans_lt (by decide)

/-- **A name is read**: its labels with their lengths go where `put` puts them, and what is counted
is what the name takes up. -/
lemma nameLoop_named (put : σ → UInt8 → Except Halt σ) {msg : List UInt8} {pos n : ℕ}
    (hname : NameAt msg pos labels n) (hmsg : ReadsAs read 0 msg)
    (hplain : ∀ label ∈ labels, ∀ b ∈ label, PlainByte b) :
    ∃ m, ∀ jumped count, ∃ jumped' count',
      countPointer jumped' count' + 1 = (if jumped then count + 2 else count + n) ∧
      ∀ fuel, m ≤ fuel → ∀ s, nameLoop read put fuel pos jumped count s =
        (wireLabels labels).foldlM put s >>= fun s => .ok (jumped', count', s) := by
  have hbyte : ∀ {i b}, msg[i]? = some b → read i = .ok b := fun {i b} h => by
    have := hmsg i b h
    rwa [Nat.zero_add] at this
  induction hname with
  | root zero =>
    refine ⟨1, fun jumped count => ⟨jumped, count, ?_, fun fuel hfuel s => ?_⟩⟩
    · cases jumped <;> rfl
    · obtain ⟨fuel, rfl⟩ : ∃ f, fuel = f + 1 := ⟨fuel - 1, by omega⟩
      rw [nameLoop, hbyte zero, ok_bind, if_pos rfl]
      rfl
  | @label pos n label labels ne_nil length_le bytes rest ih =>
    obtain ⟨hlabel, hlabels⟩ := List.forall_mem_cons.mp hplain
    obtain ⟨m, hm⟩ := ih hlabels
    have hread := readsAs_of_prefix hmsg bytes
    have hlength : (labelBytes label).length = label.length + 1 := rfl
    refine ⟨label.length + 1 + m, fun jumped count => ?_⟩
    obtain ⟨jumped', count', hcount, hloop⟩ :=
      hm jumped (if jumped then count else count + (label.length + 1))
    refine ⟨jumped', count', ?_, fun fuel hfuel s => ?_⟩
    · rw [hcount]
      cases jumped
      · exact Nat.add_assoc count (label.length + 1) n
      · rfl
    · obtain ⟨fuel, rfl⟩ : ∃ f, fuel = (labelBytes label).length + f :=
        ⟨fuel - (labelBytes label).length, by omega⟩
      rw [nameLoop_plain (plain_labelBytes ne_nil length_le hlabel) hread, hlength, wireLabels,
        List.flatMap_cons, List.foldlM_append, bind_assoc]
      exact congrArg _ (funext fun s => hloop fuel (by omega) s)
  | @pointer pos n b c labels tag first second target ih =>
    obtain ⟨m, hm⟩ := ih hplain
    refine ⟨m + 1, fun jumped count => ?_⟩
    -- behind a pointer nothing is counted
    obtain ⟨jumped', count', hcount, hloop⟩ := hm true count
    refine ⟨jumped', count', ?_, fun fuel hfuel s => ?_⟩
    · rw [hcount]
      cases jumped <;> rfl
    · obtain ⟨fuel, rfl⟩ : ∃ f, fuel = f + 1 := ⟨fuel - 1, by omega⟩
      have hzero : b ≠ 0 := by
        rintro rfl
        exact absurd tag (by decide)
      rw [nameLoop, hbyte first, ok_bind, if_neg hzero, if_pos tag, hbyte second, ok_bind]
      exact hloop fuel (by omega) s

end NameLoop

/-! ### The page of a name -/

section Page

variable {name : ℕ → UInt8} {x : List UInt8} {p i len : ℕ}

lemma storeName_ok (h : i < pageSize) (b : UInt8) :
    storeName name i b = .ok (Function.update name i b) := if_pos h

lemma storeName_error (h : pageSize ≤ i) (b : UInt8) :
    storeName name i b = .error (.outOfBounds i) := if_neg (Nat.not_lt.mpr h)

/-- Bytes are put into the page. -/
lemma putName_ok (h : p + x.length ≤ pageSize) :
    x.foldlM putName (p, name) = .ok (p + x.length, store name p x) := by
  induction x generalizing p name with
  | nil =>
    rw [store_nil]
    rfl
  | cons b x ih =>
    rw [List.length_cons] at h
    rw [List.foldlM_cons, putName, storeName_ok (by omega)]
    refine (ih (by omega)).trans ?_
    rw [store_update, List.length_cons, Nat.add_assoc, Nat.add_comm 1]

/-- More bytes than the page has room for. -/
lemma putName_error (hp : p ≤ pageSize) (h : pageSize < p + x.length) :
    x.foldlM putName (p, name) = .error (.outOfBounds pageSize) := by
  induction x generalizing p name with
  | nil => exact absurd h (by simpa using hp)
  | cons b x ih =>
    rw [List.length_cons] at h
    rw [List.foldlM_cons, putName]
    rcases hp.lt_or_eq with hlt | rfl
    · rw [storeName_ok hlt]
      exact ih (by omega) (by omega)
    · rw [storeName_error le_rfl]
      rfl

/-- The length of the string in a page. -/
lemma strlenName_eq (h : IsString name x) (hlen : x.length < pageSize) :
    strlenName name = x.length := by
  obtain ⟨hchars, hzero⟩ := holds_append.mp h.holds
  have hend : name x.length = 0 := by simpa using hzero 0 0 rfl
  have hne : ∀ i, i < x.length → name i ≠ 0 := by
    intro i hi heq
    have hbyte := hchars i _ (List.getElem?_eq_getElem hi)
    rw [Nat.zero_add, heq] at hbyte
    exact h.zero_notMem (hbyte ▸ List.getElem_mem hi)
  rw [strlenName, List.findIdx_eq (by simpa using hlen)]
  refine ⟨by simpa using hend, fun i hi => ?_⟩
  simpa using hne i hi

/-- The length of a label is no negative `char`. -/
lemma charUnsigned_label (hlen : label.length ≤ 63) :
    charUnsigned (UInt8.ofNat label.length) = label.length := by
  have hall : ∀ n < 64, charUnsigned (UInt8.ofNat n) = n := by decide
  exact hall _ (Nat.lt_succ_iff.mpr hlen)

/-- The characters of a label are moved down by one. -/
lemma shiftLabel_eq (hx : Holds name (i + 1) x) (hroom : i + x.length < pageSize) :
    ∃ name', shiftLabel x.length i name = .ok (i + x.length, name') ∧ Holds name' i x ∧
      ∀ j, j < i ∨ i + x.length ≤ j → name' j = name j := by
  induction x generalizing i name with
  | nil => exact ⟨name, rfl, holds_nil, fun _ _ => rfl⟩
  | cons b x ih =>
    obtain ⟨hb, hx⟩ := holds_cons.mp hx
    rw [List.length_cons] at hroom ⊢
    have hrest : Holds (Function.update name i b) (i + 1 + 1) x :=
      hx.congr fun j hj _ => Function.update_of_ne (by omega) _ _
    obtain ⟨name', hshift, hholds, hsame⟩ := ih hrest (by omega)
    refine ⟨name', ?_, holds_cons.mpr ⟨?_, hholds⟩, fun j hj => ?_⟩
    · rw [shiftLabel, if_pos (by omega), hb, storeName_ok (by omega), ok_bind, hshift,
        Nat.add_assoc, Nat.add_comm 1]
    · rw [hsame i (.inl (Nat.lt_succ_self i)), Function.update_self]
    · rw [hsame j (by omega), Function.update_of_ne (by omega)]

/-- A label with a dot behind it. -/
def dotted (label : List UInt8) : List UInt8 := label ++ ['.'.toUInt8]

/-- The lengths become dots behind the labels. -/
lemma dotLoop_labels (fuel : ℕ) (hlabels : ∀ label ∈ labels, label.length ≤ 63)
    (hwire : Holds name i (wireLabels labels)) (hlen : len = i + (wireLabels labels).length)
    (hroom : len < pageSize) (hfuel : labels.length < fuel) :
    ∃ name', dotLoop len fuel i name = .ok (len, name') ∧
      Holds name' i (labels.flatMap dotted) ∧ ∀ j, j < i ∨ len ≤ j → name' j = name j := by
  induction labels generalizing i name fuel with
  | nil =>
    obtain ⟨fuel, rfl⟩ : ∃ f, fuel = f + 1 := ⟨fuel - 1, by omega⟩
    obtain rfl : len = i := hlen
    exact ⟨name, by rw [dotLoop, if_neg (Nat.lt_irrefl len)], holds_nil, fun _ _ => rfl⟩
  | cons label labels ih =>
    obtain ⟨fuel, rfl⟩ : ∃ f, fuel = f + 1 := ⟨fuel - 1, by omega⟩
    obtain ⟨hlabel, hlabels⟩ := List.forall_mem_cons.mp hlabels
    have hsplit : wireLabels (label :: labels) = labelBytes label ++ wireLabels labels :=
      List.flatMap_cons
    have hcount : (labelBytes label).length = label.length + 1 := rfl
    rw [hsplit, List.length_append, hcount] at hlen
    rw [hsplit, holds_append, hcount] at hwire
    obtain ⟨hfirst, hlabelHolds⟩ := holds_cons.mp hwire.1
    obtain ⟨name₁, hshift, hholds₁, hsame₁⟩ := shiftLabel_eq hlabelHolds (by omega)
    have hlater : Holds (Function.update name₁ (i + label.length) '.'.toUInt8)
        (i + label.length + 1) (wireLabels labels) := by
      refine hwire.2.congr fun j hj _ => ?_
      rw [Function.update_of_ne (by omega), hsame₁ j (by omega)]
    obtain ⟨name₂, hloop, hholds₂, hsame₂⟩ := ih fuel hlabels hlater (by omega)
      (Nat.lt_of_succ_lt_succ hfuel)
    have hdotted : (dotted label).length = label.length + 1 := List.length_append
    refine ⟨name₂, ?_, ?_, fun j hj => ?_⟩
    · rw [dotLoop, if_pos (by omega), hfirst, charUnsigned_label hlabel, hshift, ok_bind]
      dsimp only
      rw [storeName_ok (by omega), ok_bind, hloop]
    · rw [List.flatMap_cons, holds_append, hdotted]
      refine ⟨holds_append.mpr ⟨?_, holds_cons.mpr ⟨?_, holds_nil⟩⟩, hholds₂⟩
      · refine hholds₁.congr fun j _ hj => ?_
        rw [hsame₂ j (by omega), Function.update_of_ne (by omega)]
      · rw [hsame₂ _ (by omega), Function.update_self]
    · rw [hsame₂ j (by omega), Function.update_of_ne (by omega), hsame₁ j (by omega)]

end Page

/-! ### The readers -/

section Measured

variable {read : ℕ → Except Halt UInt8} {msg : List UInt8} {pos n : ℕ}

/-- With a dot behind each label there is one behind the text. -/
lemma flatMap_dotted (hne : labels ≠ []) :
    labels.flatMap dotted = dottedText labels ++ ['.'.toUInt8] := by
  induction labels with
  | nil => exact absurd rfl hne
  | cons label labels ih =>
    by_cases hlast : labels = []
    · rw [hlast, dottedText_singleton, List.flatMap_cons, List.flatMap_nil, List.append_nil,
        dotted]
    · rw [List.flatMap_cons, ih hlast, dottedText_cons label hlast, dotted, List.append_assoc,
        List.append_assoc, List.singleton_append, List.cons_append]

/-- A label has a byte at least. -/
lemma length_le_wireLabels (labels : List (List UInt8)) :
    labels.length ≤ (wireLabels labels).length := by
  induction labels with
  | nil => exact le_rfl
  | cons label labels ih =>
    rw [wireLabels, List.flatMap_cons, List.length_append, List.length_cons, labelBytes,
      List.length_cons]
    rw [wireLabels] at ih
    omega

/-- A label takes as many bytes with its dot as with its length. -/
lemma length_flatMap_dotted (labels : List (List UInt8)) :
    (labels.flatMap dotted).length = (wireLabels labels).length := by
  induction labels with
  | nil => rfl
  | cons label labels ih =>
    rw [wireLabels, List.flatMap_cons, List.flatMap_cons, List.length_append, List.length_append,
      ih, dotted, List.length_append]
    rfl

/-- The text of a name is in the page. -/
lemma mem_dottedText {b : UInt8} (hb : b ∈ dottedText labels) :
    b = '.'.toUInt8 ∨ ∃ label ∈ labels, b ∈ label := by
  by_cases hne : labels = []
  · rw [hne] at hb
    exact absurd hb (by simp [dottedText])
  · have hmem : b ∈ labels.flatMap dotted := by
      rw [flatMap_dotted hne]
      exact List.mem_append_left _ hb
    obtain ⟨label, hlabel, hb⟩ := List.mem_flatMap.mp hmem
    rcases List.mem_append.mp hb with hb | hb
    · exact .inr ⟨label, hlabel, hb⟩
    · exact .inl (List.mem_singleton.mp hb)

/-- The text has the bytes of the labels. -/
lemma mem_dottedText_of_mem {b : UInt8} (hlabel : label ∈ labels) (hb : b ∈ label) :
    b ∈ dottedText labels := by
  induction labels with
  | nil => exact absurd hlabel List.not_mem_nil
  | cons first labels ih =>
    by_cases hlast : labels = []
    · rw [hlast, List.mem_singleton] at hlabel
      rw [hlast, dottedText_singleton, ← hlabel]
      exact hb
    · rw [dottedText_cons first hlast, List.mem_append, List.mem_cons]
      rcases List.mem_cons.mp hlabel with rfl | hlabel
      · exact .inl hb
      · exact .inr (.inr (ih hlabel))

/-- The labels of a name have from 1 to 63 bytes. -/
lemma NameAt.length_label (h : NameAt msg pos labels n) :
    ∀ label ∈ labels, label ≠ [] ∧ label.length ≤ 63 := by
  induction h with
  | root _ => exact List.forall_mem_nil _
  | label ne_nil length_le _ _ ih => exact List.forall_mem_cons.mpr ⟨⟨ne_nil, length_le⟩, ih⟩
  | pointer _ _ _ _ ih => exact ih

/-- A name of plain labels is plain on the line. -/
lemma NameAt.plain_wire (h : NameAt msg pos labels n)
    (hplain : ∀ label ∈ labels, ∀ b ∈ label, PlainByte b) :
    ∀ b ∈ wireLabels labels, PlainByte b := by
  intro b hb
  obtain ⟨label, hlabel, hb⟩ := List.mem_flatMap.mp hb
  obtain ⟨hne, hlen⟩ := h.length_label label hlabel
  exact plain_labelBytes hne hlen (hplain label hlabel) b hb

/-- **`dns_resolv_skip_name`** counts the bytes of a name. -/
lemma dnsResolvSkipName_named (hname : NameAt msg pos labels n) (hmsg : ReadsAs read 0 msg)
    (hplain : ∀ label ∈ labels, ∀ b ∈ label, PlainByte b) :
    ∃ m, ∀ fuel, m ≤ fuel → dnsResolvSkipName read fuel pos = .ok n := by
  obtain ⟨m, hm⟩ := nameLoop_named (fun (_ : Unit) _ => .ok ()) hname hmsg hplain
  obtain ⟨jumped, count, hcount, hloop⟩ := hm false 1
  have hput : (wireLabels labels).foldlM (fun (_ : Unit) _ => (.ok () : Except Halt Unit)) () =
      .ok () := by
    induction wireLabels labels with
    | nil => rfl
    | cons b x ih => exact ih
  refine ⟨m, fun fuel hfuel => ?_⟩
  rw [dnsResolvSkipName, hloop fuel hfuel, hput]
  refine congrArg Except.ok ?_
  rw [if_neg Bool.false_ne_true] at hcount
  omega

/-- **`dns_resolv_hostname_to_domain`** returns the text of a name that fits the page. -/
lemma dnsResolvHostnameToDomain_named (hname : NameAt msg pos labels n) (hmsg : ReadsAs read 0 msg)
    (hplain : ∀ label ∈ labels, ∀ b ∈ label, PlainByte b) (hne : labels ≠ [])
    (hroom : (wireLabels labels).length < pageSize) :
    ∃ m, ∀ fuel, m ≤ fuel → ∀ page, ∃ name,
      dnsResolvHostnameToDomain read fuel pos page = .ok (n, name) ∧
        IsString name (dottedText labels) := by
  obtain ⟨m, hm⟩ := nameLoop_named putName hname hmsg hplain
  obtain ⟨jumped, count, hcount, hloop⟩ := hm false 1
  refine ⟨m, fun fuel hfuel page => ?_⟩
  have hwire := hname.plain_wire hplain
  set raw := wireLabels labels with hraw
  -- what was read, with the zero behind it
  have hread := hloop fuel hfuel (0, Function.update page 0 0)
  rw [putName_ok (by omega), ok_bind, Nat.zero_add] at hread
  set name₁ := Function.update (store (Function.update page 0 0) 0 raw) raw.length 0 with hname₁
  have hstring : IsString name₁ raw := by
    refine ⟨fun h => (hwire 0 h).1 rfl, holds_append.mpr ⟨?_, holds_cons.mpr ⟨?_, holds_nil⟩⟩⟩
    · refine holds_store.congr fun i _ hi => Function.update_of_ne ?_ _ _
      omega
    · rw [Nat.zero_add]
      exact Function.update_self _ _ _
  have hcountLabels : labels.length ≤ raw.length := length_le_wireLabels labels
  obtain ⟨name₂, hdots, hholds, -⟩ := dotLoop_labels (i := 0) (raw.length + 1)
    (fun label hlabel => (hname.length_label label hlabel).2) (holds_append.mp hstring.holds).1
    (Nat.zero_add _).symm hroom (by omega)
  have hpos : 0 < raw.length := (List.length_pos_iff.mpr hne).trans_le hcountLabels
  have hlength : raw.length = (dottedText labels).length + 1 := by
    rw [hraw, ← length_flatMap_dotted, flatMap_dotted hne, List.length_append]
    rfl
  refine ⟨Function.update name₂ (raw.length - 1) 0, ?_, ?_, ?_⟩
  · rw [dnsResolvHostnameToDomain, storeName_ok (by decide), ok_bind, hread, ok_bind]
    dsimp only
    rw [storeName_ok hroom, ok_bind, ← hname₁, strlenName_eq hstring hroom, hdots, ok_bind]
    dsimp only
    rw [sub32_of_le (by rw [pageSize] at hroom; omega) hpos, storeName_ok (by omega), ok_bind]
    refine congrArg Except.ok (Prod.ext ?_ rfl)
    rw [if_neg Bool.false_ne_true] at hcount
    dsimp only
    omega
  · intro hzero
    rcases mem_dottedText hzero with h | ⟨label, hlabel, h⟩
    · exact absurd h (by decide)
    · exact (hplain label hlabel 0 h).1 rfl
  · rw [flatMap_dotted hne, holds_append] at hholds
    refine holds_append.mpr ⟨hholds.1.congr fun i _ hi => Function.update_of_ne (by omega) _ _,
      holds_cons.mpr ⟨?_, holds_nil⟩⟩
    rw [Nat.zero_add, hlength, Nat.add_sub_cancel]
    exact Function.update_self _ _ _

/-! ### Round trip -/

/-- Labels that are not compressed are a name. -/
lemma nameAt_wire (labels : List (List UInt8)) (pre post : List UInt8)
    (hlabels : ∀ label ∈ labels, label ≠ [] ∧ label.length ≤ 63) :
    NameAt (pre ++ (wireLabels labels ++ 0 :: post)) pre.length labels
      ((wireLabels labels).length + 1) := by
  induction labels generalizing pre with
  | nil =>
    refine .root ?_
    rw [List.getElem?_append_right le_rfl, Nat.sub_self]
    rfl
  | cons label labels ih =>
    obtain ⟨⟨hne, hlen⟩, hlabels⟩ := List.forall_mem_cons.mp hlabels
    have hwire : wireLabels (label :: labels) = labelBytes label ++ wireLabels labels :=
      List.flatMap_cons
    have hrest := ih (pre ++ labelBytes label) hlabels
    rw [List.append_assoc, List.length_append] at hrest
    rw [hwire, List.append_assoc, List.length_append, Nat.add_assoc]
    refine .label hne hlen ?_ hrest
    rw [List.drop_left]
    exact List.prefix_append _ _

/-- **A name that is encoded is read back.** The buffer gets the labels with their lengths and a
zero at the end, and the reader returns the name, with the length of what is in the buffer. -/
theorem dns_name_round_trip (labels : List (List UInt8)) (page : ℕ → UInt8) (hne : labels ≠ [])
    (hlabels : ∀ label ∈ labels, label ≠ [] ∧ label.length ≤ 63 ∧
      ∀ b ∈ label, 1 ≤ b ∧ b ≤ 191 ∧ b ≠ '.'.toUInt8)
    (hlen : (dottedText labels).length ≤ 126) :
    let dst := (dnsResolvDomainToHostname (fun _ => 0) (dottedText labels)).2
    Holds dst 0 (wireLabels labels ++ [0]) ∧ ∃ fuel name,
      dnsResolvHostnameToDomain (fun i => .ok (dst i)) fuel 0 page =
          .ok ((wireLabels labels ++ [0]).length, name) ∧
        IsString name (dottedText labels) := by
  have hchars : ∀ label ∈ labels, ∀ b ∈ label, b ≠ '.'.toUInt8 ∧ PlainByte b := by
    intro label hlabel b hb
    obtain ⟨hlo, hhi, hdot⟩ := (hlabels label hlabel).2.2 b hb
    rw [UInt8.le_iff_toNat_le] at hlo hhi
    refine ⟨hdot, ?_, UInt8.lt_iff_toNat_lt.mpr (Nat.lt_succ_of_le hhi)⟩
    rintro rfl
    exact absurd hlo (by decide)
  have hholds := holds_hostname hne fun label hlabel b hb =>
    ⟨(hchars label hlabel b hb).1, (hchars label hlabel b hb).2.1⟩
  intro dst
  refine ⟨hholds, ?_⟩
  have hname := nameAt_wire labels [] [] fun label hlabel =>
    ⟨(hlabels label hlabel).1, (hlabels label hlabel).2.1⟩
  have hmsg : ReadsAs (fun i => .ok (dst i)) 0 (wireLabels labels ++ [0]) :=
    fun i b hb => congrArg Except.ok (hholds i b hb)
  have hroom : (wireLabels labels).length < pageSize := by
    rw [← length_flatMap_dotted, flatMap_dotted hne, List.length_append, pageSize,
      List.length_singleton]
    omega
  obtain ⟨m, hm⟩ := dnsResolvHostnameToDomain_named hname hmsg
    (fun label hlabel b hb => (hchars label hlabel b hb).2) hne hroom
  obtain ⟨name, hread, hstring⟩ := hm m le_rfl page
  exact ⟨m, name, by rw [List.length_append]; exact hread, hstring⟩

end Measured

/-- A name of two labels. -/
theorem dns_name_round_trip_two :
    ∃ fuel name, dnsResolvHostnameToDomain
        (fun i =>
          .ok ((dnsResolvDomainToHostname (fun _ => 0) ("ab.c".toList.map Char.toUInt8)).2 i))
        fuel 0 (fun _ => 0) = .ok (6, name) ∧ IsString name ("ab.c".toList.map Char.toUInt8) := by
  have hdot : '.'.toUInt8 = 46 := rfl
  exact (dns_name_round_trip [[97, 98], [99]] (fun _ => 0) (by simp) (by simp [hdot])
    (by decide)).2

/-! ### Names that are measured -/

section Fuel

variable {σ : Type} {read : ℕ → Except Halt UInt8} {put : σ → UInt8 → Except Halt σ}

/-- With more fuel the loop over a name returns the same. -/
lemma nameLoop_mono {fuel fuel' pos count : ℕ} {jumped : Bool} {s : σ} {r : Bool × ℕ × σ}
    (h : nameLoop read put fuel pos jumped count s = .ok r) (hle : fuel ≤ fuel') :
    nameLoop read put fuel' pos jumped count s = .ok r := by
  induction fuel generalizing fuel' pos jumped count s with
  | zero => exact nomatch h
  | succ fuel ih =>
    obtain ⟨fuel', rfl⟩ : ∃ f, fuel' = f + 1 := ⟨fuel' - 1, by omega⟩
    have hle : fuel ≤ fuel' := Nat.le_of_succ_le_succ hle
    rw [nameLoop, bind_eq_ok] at h
    obtain ⟨b, hb, h⟩ := h
    rw [nameLoop, hb, ok_bind]
    by_cases hzero : b = 0
    · rw [if_pos hzero] at h ⊢
      exact h
    · rw [if_neg hzero] at h ⊢
      by_cases htag : 192 ≤ b
      · rw [if_pos htag, bind_eq_ok] at h
        obtain ⟨c, hc, h⟩ := h
        rw [if_pos htag, hc, ok_bind]
        exact ih h hle
      · rw [if_neg htag, bind_eq_ok] at h
        obtain ⟨t, ht, h⟩ := h
        rw [if_neg htag, ht, ok_bind]
        exact ih h hle

end Fuel

section Measured

variable {msg : List UInt8} {pos n : ℕ}

/-- Both readers measure a name, and the second one returns its text. -/
def NameMeasured (msg : List UInt8) (pos : ℕ) (labels : List (List UInt8)) (n : ℕ) : Prop :=
  ∀ page, ∃ fuel, dnsResolvSkipName (readIn msg) fuel pos = .ok n ∧
    ∃ name, dnsResolvHostnameToDomain (readIn msg) fuel pos page = .ok (n, name) ∧
      IsString name (dottedText labels)

/-- A name that is read has labels, and they fit the page. -/
lemma dnsResolvHostnameToDomain_room {fuel : ℕ} {page : ℕ → UInt8} {r : ℕ × (ℕ → UInt8)}
    (hname : NameAt msg pos labels n) (hplain : ∀ label ∈ labels, ∀ b ∈ label, PlainByte b)
    (h : dnsResolvHostnameToDomain (readIn msg) fuel pos page = .ok r) :
    labels ≠ [] ∧ (wireLabels labels).length < pageSize := by
  obtain ⟨m, hm⟩ := nameLoop_named putName hname (readsAs_readIn msg) hplain
  obtain ⟨jumped, count, -, hloop⟩ := hm false 1
  rw [dnsResolvHostnameToDomain, storeName_ok (by decide), ok_bind, bind_eq_ok] at h
  obtain ⟨⟨jumped', count', p, name⟩, hread, h⟩ := h
  -- with enough fuel the loop does the same
  have hread := nameLoop_mono hread (le_max_left fuel m)
  rw [hloop _ (le_max_right fuel m)] at hread
  have hfits : (wireLabels labels).length ≤ pageSize := by
    by_contra hlong
    rw [putName_error (Nat.zero_le _) (by omega)] at hread
    exact nomatch hread
  rw [putName_ok (by omega), ok_bind, Nat.zero_add] at hread
  obtain ⟨rfl, rfl, rfl, rfl⟩ : jumped = jumped' ∧ count = count' ∧
      (wireLabels labels).length = p ∧ _ = name := by
    simpa using hread
  obtain ⟨name₁, hend, h⟩ := bind_eq_ok.mp h
  have hroom : (wireLabels labels).length < pageSize := by
    by_contra hfull
    rw [storeName_error (by omega)] at hend
    exact nomatch hend
  refine ⟨?_, hroom⟩
  -- without a label the last store is in front of the page
  rintro rfl
  rw [storeName_ok hroom] at hend
  obtain rfl := Except.ok.inj hend
  have hstring : IsString (Function.update (store (Function.update page 0 0) 0 (wireLabels []))
      (wireLabels []).length 0) [] :=
    ⟨List.not_mem_nil, holds_cons.mpr ⟨Function.update_self _ _ _, holds_nil⟩⟩
  rw [strlenName_eq hstring (by decide)] at h
  exact nomatch h

/-- **Names that are measured**: those whose labels have no zero byte, that are not the root and
that fit the page. -/
theorem name_measured_iff (hname : NameAt msg pos labels n)
    (hbytes : ∀ label ∈ labels, ∀ b ∈ label, b < 192) :
    NameMeasured msg pos labels n ↔
      (∀ label ∈ labels, 0 ∉ label) ∧ labels ≠ [] ∧ (wireLabels labels).length < pageSize := by
  have hplain : (∀ label ∈ labels, 0 ∉ label) → ∀ label ∈ labels, ∀ b ∈ label, PlainByte b :=
    fun hzero label hlabel b hb =>
      ⟨fun h => hzero label hlabel (h ▸ hb), hbytes label hlabel b hb⟩
  constructor
  · intro h
    obtain ⟨fuel, -, name, hread, hstring⟩ := h fun _ => 0
    have hzero : ∀ label ∈ labels, 0 ∉ label := fun label hlabel hmem =>
      hstring.zero_notMem (mem_dottedText_of_mem hlabel hmem)
    exact ⟨hzero, dnsResolvHostnameToDomain_room hname (hplain hzero) hread⟩
  · rintro ⟨hzero, hne, hroom⟩ page
    obtain ⟨m, hskip⟩ := dnsResolvSkipName_named hname (readsAs_readIn msg) (hplain hzero)
    obtain ⟨m', hread⟩ :=
      dnsResolvHostnameToDomain_named hname (readsAs_readIn msg) (hplain hzero) hne hroom
    exact ⟨max m m', hskip _ (le_max_left m m'), hread _ (le_max_right m m') page⟩

/-- A name that is a pointer to a name of one label. -/
theorem name_measured_iff_pointer :
    NameMeasured [1, 97, 0, 192, 0] 3 [[97]] 2 ↔
      (∀ label ∈ [[97]], (0 : UInt8) ∉ label) ∧ [[(97 : UInt8)]] ≠ [] ∧
        (wireLabels [[97]]).length < pageSize :=
  name_measured_iff (.pointer (by decide) rfl rfl
    (.label (by decide) (by decide) (by decide) (.root rfl))) (by simp)

/-- A label with a zero byte ends the name for both readers. -/
theorem name_with_zero_not_measured :
    NameAt [2, 97, 0, 0] 0 [[97, 0]] 4 ∧
      dnsResolvSkipName (readIn [2, 97, 0, 0]) 4 0 = .ok 3 ∧
      ¬ NameMeasured [2, 97, 0, 0] 0 [[97, 0]] 4 := by
  have hname : NameAt [2, 97, 0, 0] 0 [[97, 0]] 4 :=
    .label (by decide) (by decide) (by decide) (.root rfl)
  refine ⟨hname, rfl, fun h => ?_⟩
  obtain ⟨fuel, hskip, -⟩ := h fun _ => 0
  rw [dnsResolvSkipName, bind_eq_ok] at hskip
  obtain ⟨⟨jumped, count, u⟩, hloop, hcount⟩ := hskip
  have hread := nameLoop_mono hloop (le_max_left fuel 3)
  have hshort : nameLoop (readIn [2, 97, 0, 0]) (fun (_ : Unit) _ => .ok ()) 3 0 false 1 () =
      .ok (false, 3, ()) := rfl
  rw [nameLoop_mono hshort (le_max_right fuel 3)] at hread
  obtain ⟨rfl, rfl, -⟩ : false = jumped ∧ 3 = count ∧ () = u := by simpa using hread
  exact absurd (Except.ok.inj hcount) (by decide)

end Measured

end MicroOS
