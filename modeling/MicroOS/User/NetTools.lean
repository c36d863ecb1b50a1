import MicroOS.User.NumberText

/-!
Addresses as text: `user/libc/nettools.c`.

* `libcParseNumberAt`: `__libc_parse_number` on memory, where a read may go past the end;
* `formatIp`, `parseIp`;
* `ip_text_round_trips`: **a printed address reads back, and reading a string stays inside of it and
  gives the zero address where something is wrong before the third dot**.
-/

namespace MicroOS

open Checked

/-- A read past the end of the memory. -/
inductive ReadFault where
  | pastEnd
  deriving DecidableEq

/-- `input[i]`, where `input` is what the memory holds from the pointer on. -/
def readAt (input : List UInt8) (i : ℕ) : Except ReadFault UInt8 :=
  match input[i]? with
  | some c => .ok c
  | none => .error .pastEnd

/-- The loop of `__libc_parse_number`: the number, and the returned pointer. -/
def numberLoopAt (base : Int32) : List UInt8 → Int32 → Except ReadFault (Int32 × List UInt8)
  | [], _ => .error .pastEnd
  | c :: input, n =>
    if c = 0 then .ok (n, c :: input)
    else
      match digitValue c with
      | some d => numberLoopAt base input (n * base + Int32.ofNat d)
      | none => .ok (n, c :: input)

/-- `__libc_parse_number`. -/
def libcParseNumberAt (input : List UInt8) : Except ReadFault (Int32 × List UInt8) := do
  if (← readAt input 0) = 48 then
    let c ← readAt input 1
    if c = 120 then numberLoopAt 16 (input.drop 2) 0
    else if c = 98 then numberLoopAt 2 (input.drop 2) 0
    else numberLoopAt 10 input 0
  else numberLoopAt 10 input 0

/-- `ip_u`, as its four bytes. -/
abbrev IpU := Vector UInt8 4

/-- `format_ip`: what is written to `out`. -/
def formatIp (ip : IpU) : Except PrintFault (List UInt8) :=
  vsprintf [37, 100, 46, 37, 100, 46, 37, 100, 46, 37, 100]
    [.word ip[0].toUInt32, .word ip[1].toUInt32, .word ip[2].toUInt32, .word ip[3].toUInt32]

/-- The rounds of `parse_ip`. The one with the index `i` is followed by `3 - i` others. -/
def parseIpLoop : ℕ → IpU → List UInt8 → Except ReadFault IpU
  | 0, ip, _ => .ok ip
  | rounds + 1, ip, curr => do
      let (r, curr) ← libcParseNumberAt curr
      let c ← readAt curr 0
      if (c ≠ 46 ∧ c ≠ 0) ∨ (c = 0 ∧ rounds ≠ 0) then .ok (Vector.replicate 4 0)
      else
        parseIpLoop rounds (ip.setIfInBounds (3 - rounds) r.toUInt32.toUInt8) (curr.drop 1)

/-- `parse_ip`. -/
def parseIp (input : List UInt8) : Except ReadFault IpU :=
  parseIpLoop 4 (Vector.replicate 4 0) input

/-- What may stand in an address: a dot, a hexadecimal digit or an `x`. -/
def isIpChar (c : UInt8) : Bool := c = 46 ∨ isXDigit c ∨ c = 120

/-! ### The number reader on memory -/

section Reader

variable {s input rest : List UInt8} {base n : Int32} {c : UInt8}

lemma readAt_cons (c : UInt8) (input : List UInt8) : readAt (c :: input) 0 = .ok c := rfl

/-- Digits are no zeros and no dots, and may stand in an address. -/
lemma digitValue_plain : ∀ c : UInt8, ∀ d, digitValue c = some d →
    c ≠ 0 ∧ c ≠ 46 ∧ isIpChar c = true := by
  have h : ∀ c : UInt8, (digitValue c).isSome = true → c ≠ 0 ∧ c ≠ 46 ∧ isIpChar c = true := by
    rintro ⟨c⟩
    revert c
    decide
  exact fun c d hd => h c (hd ▸ rfl)

/-- Where a zero stands, the loop does not come past it. -/
lemma numberLoopAt_eq (hs : 0 ∈ input) (n : Int32) :
    numberLoopAt base input n = .ok (numberLoop base input n) := by
  induction input generalizing n with
  | nil => exact absurd hs List.not_mem_nil
  | cons c input ih =>
    rw [numberLoopAt, numberLoop]
    by_cases hc : c = 0
    · rw [if_pos hc, hc]
      rfl
    · have htail : 0 ∈ input := (List.mem_cons.mp hs).resolve_left (Ne.symm hc)
      rw [if_neg hc]
      cases digitValue c with
      | none => rfl
      | some d => exact ih htail _

/-- What the loop passes over are digits. -/
lemma numberLoop_split (base : Int32) (input : List UInt8) (n : Int32) :
    ∃ taken, input = taken ++ (numberLoop base input n).2 ∧
      ∀ c ∈ taken, c ≠ 0 ∧ c ≠ 46 ∧ isIpChar c = true := by
  induction input generalizing n with
  | nil => exact ⟨[], rfl, fun c hc => absurd hc List.not_mem_nil⟩
  | cons c input ih =>
    rw [numberLoop]
    cases hd : digitValue c with
    | none => exact ⟨[], rfl, fun c hc => absurd hc List.not_mem_nil⟩
    | some d =>
      obtain ⟨taken, htaken, hplain⟩ := ih (n * base + Int32.ofNat d)
      exact ⟨c :: taken, congrArg (c :: ·) htaken,
        List.forall_mem_cons.mpr ⟨digitValue_plain c d hd, hplain⟩⟩

/-- **The reader on a string**: it returns what the reader of texts returns. -/
lemma libcParseNumberAt_eq (hs : 0 ∈ input) :
    libcParseNumberAt input = .ok (lexerParseNumber input) := by
  cases input with
  | nil => exact absurd hs List.not_mem_nil
  | cons c input =>
    rw [libcParseNumberAt, lexerParseNumber, readAt_cons, ok_bind]
    by_cases hc : c = 48
    · have htail : 0 ∈ input := (List.mem_cons.mp hs).resolve_left (by rw [hc]; decide)
      cases input with
      | nil => exact absurd htail List.not_mem_nil
      | cons d input =>
        have hread : readAt (c :: d :: input) 1 = .ok d := rfl
        rw [if_pos hc, hread, ok_bind, hc]
        by_cases hx : d = 120
        · have hrest : 0 ∈ input := (List.mem_cons.mp htail).resolve_left (by rw [hx]; decide)
          rw [if_pos hx, if_pos ⟨rfl, by rw [hx]; rfl⟩]
          exact numberLoopAt_eq hrest 0
        · have hx' : ¬((48 :: d :: input)[0]? = some 48 ∧ (48 :: d :: input)[1]? = some 120) :=
            fun h => hx (Option.some.inj h.2)
          rw [if_neg hx, if_neg hx']
          by_cases hb : d = 98
          · have hrest : 0 ∈ input :=
              (List.mem_cons.mp htail).resolve_left (by rw [hb]; decide)
            rw [if_pos hb, if_pos ⟨rfl, by rw [hb]; rfl⟩]
            exact numberLoopAt_eq hrest 0
          · have hb' : ¬((48 :: d :: input)[0]? = some 48 ∧
                (48 :: d :: input)[1]? = some 98) := fun h => hb (Option.some.inj h.2)
            rw [if_neg hb, if_neg hb']
            exact numberLoopAt_eq (hc ▸ hs) 0
    · have h : ∀ e, ¬((c :: input)[0]? = some 48 ∧ (c :: input)[1]? = some e) :=
        fun e h => hc (Option.some.inj h.1)
      rw [if_neg hc, if_neg (h 120), if_neg (h 98)]
      exact numberLoopAt_eq hs 0

/-- What the reader passes over has no zeros and no dots. -/
lemma lexerParseNumber_split (input : List UInt8) :
    ∃ taken, input = taken ++ (lexerParseNumber input).2 ∧
      ∀ c ∈ taken, c ≠ 0 ∧ c ≠ 46 ∧ isIpChar c = true := by
  have hprefix : ∀ e : UInt8, input[0]? = some 48 ∧ input[1]? = some e →
      input = 48 :: e :: input.drop 2 := by
    rintro e ⟨h0, h1⟩
    cases input with
    | nil => cases h0
    | cons c input =>
      cases input with
      | nil => cases h1
      | cons d input =>
        obtain rfl : c = 48 := Option.some.inj h0
        obtain rfl : d = e := Option.some.inj h1
        rfl
  have hsplit : ∀ e base, e ≠ 0 ∧ e ≠ 46 ∧ isIpChar e = true →
      input[0]? = some 48 ∧ input[1]? = some e →
      ∃ taken, input = taken ++ (numberLoop base (input.drop 2) 0).2 ∧
        ∀ c ∈ taken, c ≠ 0 ∧ c ≠ 46 ∧ isIpChar c = true := by
    intro e base he h
    obtain ⟨taken, htaken, hplain⟩ := numberLoop_split base (input.drop 2) 0
    refine ⟨48 :: e :: taken, ?_, ?_⟩
    · rw [List.cons_append, List.cons_append, ← htaken]
      exact hprefix e h
    · exact List.forall_mem_cons.mpr ⟨by decide, List.forall_mem_cons.mpr ⟨he, hplain⟩⟩
  rw [lexerParseNumber]
  split_ifs with hx hb
  · exact hsplit 120 16 (by decide) hx
  · exact hsplit 98 2 (by decide) hb
  · exact numberLoop_split 10 input 0

end Reader

/-! ### Strings -/

section Strings

variable {s taken rest : List UInt8} {c : UInt8} {rounds : ℕ} {ip : IpU}

/-- A place in a string with its terminator. -/
lemma terminated_split (h : s ++ [0] = taken ++ c :: rest) :
    (s = taken ∧ c = 0) ∨ ∃ s', s = taken ++ c :: s' ∧ rest = s' ++ [0] := by
  obtain rfl | ⟨s', z, rfl⟩ := List.eq_nil_or_concat rest
  · obtain ⟨hs, hc⟩ := List.append_inj' h rfl
    exact Or.inl ⟨hs, (List.cons.inj hc).1.symm⟩
  · have h' : s ++ [0] = (taken ++ c :: s') ++ [z] := by
      rw [h, List.append_assoc, List.cons_append, List.concat_eq_append]
    obtain ⟨hs, hz⟩ := List.append_inj' h' rfl
    exact Or.inr ⟨s', hs, by rw [← (List.cons.inj hz).1, List.concat_eq_append]⟩

/-- What holds of a string from which an address other than zero is read with `rounds` rounds before
the last one. -/
def IpShaped (rounds : ℕ) (s : List UInt8) : Prop :=
  rounds ≤ s.count 46 ∧ ∀ pre c post, s = pre ++ c :: post → pre.count 46 < rounds →
    isIpChar c = true

/-- A round that ends at a dot. -/
lemma IpShaped.round (htaken : ∀ c ∈ taken, c ≠ 0 ∧ c ≠ 46 ∧ isIpChar c = true)
    (h : IpShaped rounds s) : IpShaped (rounds + 1) (taken ++ 46 :: s) := by
  have hnone : taken.count 46 = 0 := List.count_eq_zero.mpr fun h46 => (htaken 46 h46).2.1 rfl
  constructor
  · rw [List.count_append, hnone, List.count_cons_self]
    have := h.1
    omega
  · intro pre c post hsplit hcount
    rw [List.append_eq_append_iff] at hsplit
    obtain ⟨mid, hpre, hmid⟩ | ⟨mid, hpre, hmid⟩ := hsplit
    · -- the place is the dot, or behind it
      cases mid with
      | nil =>
        obtain rfl := (List.cons.inj hmid).1
        decide
      | cons d mid =>
        obtain ⟨rfl, hs⟩ := List.cons.inj hmid
        refine h.2 mid c post hs ?_
        rw [hpre, List.count_append, hnone, List.count_cons_self] at hcount
        omega
    · cases mid with
      | nil =>
        obtain rfl := (List.cons.inj hmid).1
        decide
      | cons d mid =>
        obtain ⟨rfl, -⟩ := List.cons.inj hmid
        refine (htaken c ?_).2.2
        rw [hpre]
        exact List.mem_append_right pre List.mem_cons_self

/-- One round of `parse_ip` on a string. -/
lemma parseIpLoop_round (s : List UInt8) : ∃ taken c rest, s ++ [0] = taken ++ c :: rest ∧
    (∀ c ∈ taken, c ≠ 0 ∧ c ≠ 46 ∧ isIpChar c = true) ∧
    ∀ rounds ip, ∃ ip', parseIpLoop (rounds + 1) ip (s ++ [0]) =
      if (c ≠ 46 ∧ c ≠ 0) ∨ (c = 0 ∧ rounds ≠ 0) then .ok (Vector.replicate 4 0)
      else parseIpLoop rounds ip' rest := by
  have hzero : 0 ∈ s ++ [0] := List.mem_append_right s (List.mem_singleton_self 0)
  obtain ⟨taken, hsplit, hplain⟩ := lexerParseNumber_split (s ++ [0])
  cases hrest : (lexerParseNumber (s ++ [0])).2 with
  | nil =>
    rw [hrest, List.append_nil] at hsplit
    exact absurd rfl (hplain 0 (hsplit ▸ hzero)).1
  | cons c rest =>
    refine ⟨taken, c, rest, hrest ▸ hsplit, hplain, fun rounds ip =>
      ⟨ip.setIfInBounds (3 - rounds) (lexerParseNumber (s ++ [0])).1.toUInt32.toUInt8, ?_⟩⟩
    rw [parseIpLoop, libcParseNumberAt_eq hzero, ok_bind]
    dsimp only
    rw [hrest, readAt_cons, ok_bind]
    rfl

/-- **The rounds stay inside of a string**, and without the shape of an address they give zero. -/
lemma parseIpLoop_outcome (rounds : ℕ) (ip : IpU) (hs : 0 ∉ s) :
    ∃ r, parseIpLoop (rounds + 1) ip (s ++ [0]) = .ok r ∧
      (r = Vector.replicate 4 0 ∨ IpShaped rounds s) := by
  induction rounds generalizing s ip with
  | zero =>
    have hshape : IpShaped 0 s := ⟨Nat.zero_le _, fun _ _ _ _ h => absurd h (Nat.not_lt_zero _)⟩
    obtain ⟨taken, c, rest, -, -, hround⟩ := parseIpLoop_round s
    obtain ⟨ip', hround⟩ := hround 0 ip
    rw [hround]
    split_ifs
    · exact ⟨_, rfl, Or.inl rfl⟩
    · exact ⟨ip', rfl, Or.inr hshape⟩
  | succ rounds ih =>
    obtain ⟨taken, c, rest, hsplit, hplain, hround⟩ := parseIpLoop_round s
    obtain ⟨ip', hround⟩ := hround (rounds + 1) ip
    rw [hround]
    split_ifs with hbad
    · exact ⟨_, rfl, Or.inl rfl⟩
    · have hc0 : c ≠ 0 := fun h => hbad (Or.inr ⟨h, Nat.succ_ne_zero _⟩)
      have hc : c = 46 := by
        by_contra hne
        exact hbad (Or.inl ⟨hne, hc0⟩)
      obtain ⟨-, h0⟩ | ⟨s', rfl, rfl⟩ := terminated_split hsplit
      · exact absurd h0 hc0
      · have hs' : 0 ∉ s' := fun h =>
          hs (List.mem_append_right taken (List.mem_cons_of_mem c h))
        obtain ⟨r, hr, hshape⟩ := ih ip' hs'
        rw [hc]
        exact ⟨r, hr, hshape.imp_right (IpShaped.round hplain)⟩

end Strings

/-! ### Printed addresses -/

section Printed

variable {rest : List UInt8} {c : UInt8} {rounds n : ℕ} {ip : IpU}

/-- **A decimal text is read.** -/
lemma lexerParseNumber_numeralText (hn : n < 2 ^ 31) (hrest : Delimited rest) :
    lexerParseNumber (numeralText 10 n ++ rest) = (Int32.ofNat n, rest) := by
  calc lexerParseNumber (numeralText 10 n ++ rest)
    _ = (Int32.ofNat (digitsValue 10 (numeralText 10 n)), rest) :=
        lexerParseNumber_text (printedNumeral n hn) hrest
    _ = (Int32.ofNat n, rest) := by rw [digitsValue_numeralText]

/-- **A printed byte is read back**, up to the character behind it. -/
lemma parseIpLoop_byte (a : UInt8) (hc : c = 46 ∨ c = 0 ∧ rounds = 0) (hzero : 0 ∈ c :: rest) :
    parseIpLoop (rounds + 1) ip (numeralText 10 a.toNat ++ c :: rest) =
      parseIpLoop rounds (ip.setIfInBounds (3 - rounds) a) rest := by
  have ha : a.toNat < 2 ^ 8 := a.toNat_lt
  have hdelimited : Delimited (c :: rest) := by
    intro d hd
    obtain rfl : c = d := Option.some.inj hd
    obtain rfl | ⟨rfl, -⟩ := hc
    · decide
    · decide
  have hgood : ¬((c ≠ 46 ∧ c ≠ 0) ∨ (c = 0 ∧ rounds ≠ 0)) := by
    obtain rfl | ⟨rfl, rfl⟩ := hc
    · simp
    · decide
  have hbyte : (Int32.ofNat a.toNat).toUInt32.toUInt8 = a := by
    simp
  rw [parseIpLoop, libcParseNumberAt_eq (List.mem_append_right _ hzero),
    lexerParseNumber_numeralText (by omega) hdelimited, ok_bind]
  dsimp only
  rw [readAt_cons, ok_bind, if_neg hgood, hbyte]
  rfl

/-- A character that is no percent sign is copied. -/
lemma vsprintf_plain (hc : c ≠ 37) {str text : List UInt8} {args : List VaArg}
    (h : vsprintf str args = .ok text) : vsprintf (c :: str) args = .ok (c :: text) := by
  rw [vsprintf.eq_def]
  dsimp only
  rw [if_neg hc, h]
  rfl

/-- A byte is printed in the base 10. -/
lemma vsprintf_byte (a : UInt8) {str text : List UInt8} {args : List VaArg}
    (h : vsprintf str args = .ok text) :
    vsprintf (37 :: 100 :: str) (.word a.toUInt32 :: args) =
      .ok (numeralText 10 a.toNat ++ text) := by
  have ha : a.toNat < 2 ^ 8 := a.toNat_lt
  have hword : a.toUInt32.toInt32.toInt = a.toNat := by
    have hbmod : a.toUInt32.toInt32.toInt = CInt.int a.toUInt32.toNat :=
      BitVec.toInt_eq_toNat_bmod _
    rw [hbmod, UInt8.toNat_toUInt32]
    exact CInt.int_of_mem (by omega) (by rw [CInt.intMax]; omega)
  have hprint : printNum a.toUInt32.toInt32.toInt 10 = .ok (numeralText 10 a.toNat) := by
    have h := printNum_eq (b := 10) (by norm_num) (by norm_num)
      (show -2 ^ 31 < (a.toNat : ℤ) by omega) (by omega)
    rw [signedText, if_neg (by omega), Int.natAbs_natCast] at h
    rw [hword]
    exact h
  rw [vsprintf, if_pos rfl]
  dsimp only
  rw [if_neg (by decide), if_neg (by decide), if_pos (by decide), vaWord, ok_bind]
  dsimp only
  rw [hprint, ok_bind, h]
  rfl

/-- The text of an address. -/
def ipText (ip : IpU) : List UInt8 :=
  numeralText 10 ip[0].toNat ++ (46 : UInt8) :: (numeralText 10 ip[1].toNat ++
    (46 : UInt8) :: (numeralText 10 ip[2].toNat ++ (46 : UInt8) ::
      (numeralText 10 ip[3].toNat ++ [0])))

/-- **The address is printed** as its text. -/
lemma formatIp_eq (ip : IpU) : formatIp ip = .ok (ipText ip) := by
  have h3 : vsprintf [37, 100] [.word ip[3].toUInt32] =
    .ok (numeralText 10 ip[3].toNat ++ [0]) := vsprintf_byte ip[3] rfl
  have h2 := vsprintf_byte ip[2] (vsprintf_plain (c := 46) (by decide) h3)
  have h1 := vsprintf_byte ip[1] (vsprintf_plain (c := 46) (by decide) h2)
  exact vsprintf_byte ip[0] (vsprintf_plain (c := 46) (by decide) h1)

/-- **And read back.** -/
lemma parseIp_ipText (ip : IpU) : parseIp (ipText ip) = .ok ip := by
  rw [parseIp, ipText, parseIpLoop_byte _ (Or.inl rfl) (by simp),
    parseIpLoop_byte _ (Or.inl rfl) (by simp), parseIpLoop_byte _ (Or.inl rfl) (by simp),
    parseIpLoop_byte _ (Or.inr ⟨rfl, rfl⟩) (by simp), parseIpLoop]
  refine congrArg Except.ok (Vector.ext fun i hi => ?_)
  interval_cases i <;> simp

/-- **Addresses read back**, and reading a string never leaves it and gives zero where it has no
three dots, or something before the third dot that cannot stand in an address. -/
theorem ip_text_round_trips (ip : IpU) {s : List UInt8} (hs : 0 ∉ s) :
    (∃ text, formatIp ip = .ok text ∧ parseIp text = .ok ip) ∧
      ∃ r, parseIp (s ++ [0]) = .ok r ∧
        (s.count 46 < 3 ∨ (∃ pre c post, s = pre ++ c :: post ∧ pre.count 46 < 3 ∧
          isIpChar c = false) → r = Vector.replicate 4 0) := by
  refine ⟨⟨ipText ip, formatIp_eq ip, parseIp_ipText ip⟩, ?_⟩
  obtain ⟨r, hr, hshape⟩ := parseIpLoop_outcome 3 (Vector.replicate 4 0) hs
  refine ⟨r, hr, fun hwrong => hshape.resolve_right fun hshape => ?_⟩
  obtain hdots | ⟨pre, c, post, hsplit, hcount, hc⟩ := hwrong
  · exact absurd hshape.1 (not_le.mpr hdots)
  · rw [hshape.2 pre c post hsplit hcount] at hc
    exact Bool.noConfusion hc

/-- The address `10.0.2.15`, and the string `1.g.2.3`. -/
theorem ip_text_qemu : (∃ text, formatIp #v[10, 0, 2, 15] = .ok text ∧
    parseIp text = .ok #v[10, 0, 2, 15]) ∧
      parseIp ([49, 46, 103, 46, 50, 46, 51] ++ [0]) = .ok #v[0, 0, 0, 0] := by
  have h := ip_text_round_trips #v[10, 0, 2, 15] (s := [49, 46, 103, 46, 50, 46, 51]) (by decide)
  obtain ⟨r, hr, hzero⟩ := h.2
  have hr0 : r = Vector.replicate 4 0 :=
    hzero (Or.inr ⟨[49, 46], 103, [46, 50, 46, 51], rfl, by decide, by decide⟩)
  rw [hr0] at hr
  exact ⟨h.1, hr⟩

end Printed

end MicroOS
