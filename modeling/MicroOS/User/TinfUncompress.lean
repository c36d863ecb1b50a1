import MicroOS.User.TinfHeader

/-!
The decompressor as a whole, `tinf_uncompress`.

* `tinfInflateUncompressedBlock_cases`, `tinfInflateBlock_cases`, `tinfBlocks_cases`: what is
  accepted is the format; `tinfInflateBlock_reads`, `tinfBlocks_reads`: the format is accepted.
* `tinfUncompress_ok_iff`: **the decompressor accepts the format and nothing else**, and its output
  is what the data stand for.
* `tinfUncompress_returned`: on every input it returns, with no failed assertion and no access
  outside an array.
-/

namespace MicroOS

open BitStream Canonical Checked Deflate TinfData

variable {lt dt : TinfTree} {d d' : TinfData} {rest : List Bool} {lengths : List ℕ} {b : Block}
  {bs : List Block} {out : List UInt8} {n k length : ℕ}

/-! ### Stored blocks -/

/-- `read_le16`. -/
lemma tinfReadLe16_eq (b c : UInt8) (x : List UInt8) :
    tinfReadLe16 (b :: c :: x) = .ok (b.toNat + 256 * c.toNat) := by
  have hb : b.toNat < 2 ^ 8 := b.toNat_lt
  have hor : b.toNat ||| (c.toNat <<< 8) = b.toNat + 256 * c.toNat := by
    rw [Nat.shiftLeft_eq, Nat.mul_comm, Nat.or_comm, ← Nat.two_pow_add_eq_or_of_lt hb, Nat.add_comm]
  rw [tinfReadLe16, ← hor]
  rfl

/-- Bytes are copied. -/
lemma tinfCopySource_eq (hlen : length ≤ d.source.length)
    (hroom : d.out.length + length ≤ d.limit) :
    tinfCopySource length d
      = .ok { d with source := d.source.drop length, out := d.out ++ d.source.take length } := by
  induction length generalizing d with
  | zero =>
    rw [tinfCopySource, List.drop_zero, List.take_zero, List.append_nil]
  | succ length ih =>
    cases hsource : d.source with
    | nil => rw [hsource, List.length_nil] at hlen; omega
    | cons b source =>
      rw [hsource, List.length_cons] at hlen
      rw [tinfCopySource, hsource]
      dsimp only
      rw [store, if_pos (by dsimp only; omega), ok_bind, ih (by dsimp only; omega)
        (by dsimp only; rw [List.length_append, List.length_singleton]; omega)]
      simp

/-- **What is accepted is a stored block.** -/
lemma tinfInflateUncompressedBlock_cases (hd : d.Ready) (hlen : d.out.length ≤ d.limit) :
    (∃ e, tinfInflateUncompressedBlock d = .error e ∧ e.Returned)
      ∨ ∃ pad data d', tinfInflateUncompressedBlock d = .ok d'
        ∧ (Block.stored pad data).Sends d.pending d'.pending ∧ d'.out = d.out ++ data
        ∧ d'.limit = d.limit ∧ d'.Ready ∧ d'.overflow = d.overflow ∧ d'.out.length ≤ d'.limit := by
  rw [tinfInflateUncompressedBlock]
  rcases hsource : d.source with _ | ⟨b₀, _ | ⟨b₁, _ | ⟨b₂, _ | ⟨b₃, x⟩⟩⟩⟩
  -- fewer than four bytes are ahead
  iterate 4
    rw [if_pos (by simp)]
    exact .inl ⟨_, rfl, .inl rfl⟩
  rw [if_neg (by simp), tinfReadLe16_eq, ok_bind, List.drop_succ_cons, List.drop_succ_cons,
    List.drop_zero, tinfReadLe16_eq, ok_bind, List.drop_succ_cons, List.drop_succ_cons,
    List.drop_succ_cons, List.drop_succ_cons, List.drop_zero]
  set len := b₀.toNat + 256 * b₁.toNat with hlendef
  set inv := b₂.toNat + 256 * b₃.toNat with hinvdef
  have hb₀ : b₀.toNat < 2 ^ 8 := b₀.toNat_lt
  have hb₁ : b₁.toNat < 2 ^ 8 := b₁.toNat_lt
  have hb₂ : b₂.toNat < 2 ^ 8 := b₂.toNat_lt
  have hb₃ : b₃.toNat < 2 ^ 8 := b₃.toNat_lt
  by_cases hcheck : len ≠ (2 ^ 32 - 1 - inv) &&& 0xffff
  · rw [if_pos hcheck]
    exact .inl ⟨_, rfl, .inl rfl⟩
  rw [if_neg hcheck]
  dsimp only
  by_cases hshort : x.length < len
  · rw [if_pos hshort]
    exact .inl ⟨_, rfl, .inl rfl⟩
  rw [if_neg hshort]
  by_cases hroom : d.limit - d.out.length < len
  · rw [if_pos hroom]
    exact .inl ⟨_, rfl, .inr rfl⟩
  -- the test compares the low sixteen bits of the complement
  have hinv : inv = 2 ^ 16 - 1 - len := by
    have hmask : (2 ^ 32 - 1 - inv) &&& 0xffff = (2 ^ 32 - 1 - inv) % 2 ^ 16 :=
      Nat.and_two_pow_sub_one_eq_mod _ 16
    rw [hmask, not_not] at hcheck
    omega
  have htake : (x.take len).length = len := by rw [List.length_take]; omega
  rw [if_neg hroom, tinfCopySource_eq (by dsimp only; omega) (by dsimp only; omega), ok_bind]
  refine .inr ⟨bits d.bitcount d.tag, x.take len, _, rfl, ⟨?_, ?_, ?_, ?_⟩, rfl, rfl,
    ⟨Nat.one_pos, by norm_num, fun h => absurd (hd.ended h) (by rw [hsource]; simp)⟩, rfl, ?_⟩
  · have hlenBits : bits 16 len = stream [b₀, b₁] := (stream_pair b₀ b₁).symm
    have hinvBits : bits 16 inv = stream [b₂, b₃] := (stream_pair b₂ b₃).symm
    rw [TinfData.pending, TinfData.pending, hsource, htake, ← hinv, hlenBits, hinvBits]
    dsimp only
    have hsplit : b₀ :: b₁ :: b₂ :: b₃ :: x
        = [b₀, b₁] ++ ([b₂, b₃] ++ (x.take len ++ x.drop len)) := by
      rw [List.take_append_drop]
      rfl
    rw [hsplit, stream_append, stream_append, stream_append, bits, List.nil_append]
    simp only [List.append_assoc]
  · rw [length_bits]
    exact hd.bitcount
  · rw [TinfData.pending]
    dsimp only
    rw [bits, List.nil_append, length_stream]
    exact Nat.dvd_mul_right 8 _
  · rw [htake]
    omega
  · dsimp only
    rw [List.length_append, htake]
    omega

/-- **A stored block that is ahead is accepted.** -/
lemma tinfInflateUncompressedBlock_reads {pad : List Bool} {data : List UInt8} (hd : d.Ready)
    (hov : d.overflow = false) (hsends : (Block.stored pad data).Sends d.pending rest)
    (hlen : (d.out ++ data).length ≤ d.limit) :
    ∃ d', tinfInflateUncompressedBlock d = .ok d' ∧ d'.out = d.out ++ data ∧ d'.limit = d.limit
      ∧ d'.Ready ∧ d'.overflow = false ∧ d'.pending = rest := by
  obtain ⟨hw, hpad, hrest, hdata⟩ := hsends
  obtain ⟨b₀, b₁, hlen₀⟩ := exists_pair hdata
  obtain ⟨b₂, b₃, hinv⟩ := exists_pair (by omega : 2 ^ 16 - 1 - data.length < 2 ^ 16)
  have hcount := hd.bitcount
  have hbits : bits d.bitcount d.tag = pad ∧ stream d.source
      = stream ([b₀, b₁] ++ ([b₂, b₃] ++ data)) ++ rest := by
    rw [TinfData.pending, List.append_assoc, List.append_assoc, List.append_assoc] at hw
    have hsum := congrArg List.length hw
    simp only [List.length_append, length_bits, length_stream] at hsum
    obtain ⟨hhead, htail⟩ := List.append_inj hw (by rw [length_bits]; omega)
    refine ⟨hhead, ?_⟩
    rw [htail, stream_append, stream_append, stream_pair, stream_pair, ← hlen₀, ← hinv]
    simp only [List.append_assoc]
  obtain ⟨-, hstream⟩ := hbits
  obtain ⟨z, hsource, rfl⟩ := exists_of_stream_append hstream
  have hsource : d.source = b₀ :: b₁ :: b₂ :: b₃ :: (data ++ z) := by rw [hsource]; simp
  rw [List.length_append] at hlen
  have hmask : (2 ^ 32 - 1 - (2 ^ 16 - 1 - data.length)) &&& 0xffff
      = (2 ^ 32 - 1 - (2 ^ 16 - 1 - data.length)) % 2 ^ 16 := Nat.and_two_pow_sub_one_eq_mod _ 16
  refine ⟨{ d with source := z, out := d.out ++ data, tag := 0, bitcount := 0 }, ?_, rfl, rfl,
    ⟨Nat.one_pos, by norm_num, fun h => absurd (h.symm.trans hov) (by decide)⟩, hov, rfl⟩
  rw [tinfInflateUncompressedBlock, hsource, if_neg (by simp), tinfReadLe16_eq, ok_bind,
    List.drop_succ_cons, List.drop_succ_cons, List.drop_zero, tinfReadLe16_eq, ok_bind,
    List.drop_succ_cons, List.drop_succ_cons, List.drop_succ_cons, List.drop_succ_cons,
    List.drop_zero, ← hlen₀, ← hinv, hmask, if_neg (by omega)]
  dsimp only
  rw [if_neg (by rw [List.length_append]; omega), if_neg (by omega),
    tinfCopySource_eq (by dsimp only; rw [List.length_append]; omega) (by dsimp only; omega),
    ok_bind]
  dsimp only
  rw [List.drop_left, List.take_left]
  rfl

/-! ### A block -/

/-- What `tinf_inflate_block` needs of the trees that it finds, and keeps. -/
structure TreesKept (lt dt : TinfTree) : Prop where
  lt : lt.symbols.length = 288
  dt : dt.symbols.length = 288

/-- **What is accepted is a block.** -/
lemma tinfInflateBlock_cases {btype : ℕ} (htrees : TreesKept lt dt)
    (hlengths : lengths.length = 288 + 32) (hd : d.Ready) (hlen : d.out.length ≤ d.limit)
    (hn : d.overflow = false → d.pending.length < n) (hn0 : 0 < n) :
    (∃ e, tinfInflateBlock lengths n btype d lt dt = .error e ∧ e.Returned)
      ∨ ∃ (b : Block) (d' : TinfData) (lt' dt' : TinfTree),
        tinfInflateBlock lengths n btype d lt dt = .ok (d', lt', dt') ∧ b.type = btype
        ∧ b.Sends d.pending d'.pending ∧ b.expand d.out = some d'.out ∧ d.overflow = false
        ∧ d'.overflow = false ∧ d'.limit = d.limit ∧ d'.Ready ∧ d'.out.length ≤ d'.limit
        ∧ TreesKept lt' dt' := by
  obtain ⟨n, rfl⟩ : ∃ n', n = n' + 1 := ⟨n - 1, by omega⟩
  -- the two compressed types end in the same loop, so its cases are stated once
  have hdata {lt dt : TinfTree} {lit dist : List ℕ} (hlt : lt.Decodes lit 285)
      (hdt : dt.Decodes dist 29) (heob : Coded lit 256) {d : TinfData} (hd : d.Ready)
      (hlen : d.out.length ≤ d.limit) (hn : d.overflow = false → d.pending.length < n + 1) :
      (∃ e, tinfInflateBlockData lt dt (n + 1) d = .error e ∧ e.Returned)
        ∨ ∃ d' ts, tinfInflateBlockData lt dt (n + 1) d = .ok d'
          ∧ (∀ t ∈ ts, Token.Valid lit dist t) ∧ ts.foldlM Token.expand d.out = some d'.out
          ∧ d.pending = encodeTokens lit dist ts ++ d'.pending ∧ d.overflow = false
          ∧ d'.overflow = false ∧ d'.limit = d.limit ∧ d'.Ready ∧ d'.out.length ≤ d'.limit := by
    cases hov : d.overflow with
    | true =>
      exact .inl ⟨_, tinfInflateBlockData_overflow (hlt.sound_of heob (by norm_num)) hd hov,
        .inl rfl⟩
    | false =>
      rcases tinfInflateBlockData_cases hlt hdt heob hd hlen hov (hn hov) with herr | h
      · exact .inl herr
      · obtain ⟨d', ts, out, heq, hvalid, hexpand, htook, hov', hlen'⟩ := h
        obtain rfl : d'.out = out := htook.out
        exact .inr ⟨d', ts, heq, hvalid, hexpand, htook.pending hov', rfl, hov', htook.limit,
          htook.ready, hlen'⟩
  match btype with
  | 0 =>
    rw [tinfInflateBlock]
    rcases tinfInflateUncompressedBlock_cases hd hlen with ⟨e, herr, he⟩ | h
    · rw [herr]
      exact .inl ⟨e, rfl, he⟩
    · obtain ⟨pad, data, d', heq, hsends, hout, hlimit, hready, hov', hlen'⟩ := h
      rw [heq, ok_bind]
      cases hov : d.overflow with
      | true =>
        rw [tinfInflateUncompressedBlock, hd.ended hov] at heq
        exact nomatch heq
      | false =>
        exact .inr ⟨.stored pad data, d', lt, dt, rfl, rfl, hsends, by rw [hout]; rfl, rfl,
          hov'.trans hov, hlimit, hready, hlen', htrees⟩
  -- the fixed trees are built before the loop
  | 1 =>
    rw [tinfInflateBlock, tinfBuildFixedTrees]
    dsimp only
    have hfixed := tinfFixedDtree_decodes htrees.dt
    rcases hdata tinfFixedLtree_decodes hfixed ⟨by decide +kernel, by decide +kernel⟩ hd hlen
      hn with ⟨e, herr, he⟩ | h
    · rw [herr]
      exact .inl ⟨e, rfl, he⟩
    · obtain ⟨d', ts, heq, hvalid, hexpand, hpending, hov, hov', hlimit, hready, hlen'⟩ := h
      rw [heq, ok_bind]
      exact .inr ⟨.fixed ts, d', _, _, rfl, rfl, ⟨hpending, hvalid⟩, hexpand, hov, hov', hlimit,
        hready, hlen', tinfFixedLtree_decodes.symbols, hfixed.symbols⟩
  | 2 =>
    rw [tinfInflateBlock]
    rcases tinfDecodeTrees_cases hd htrees.lt htrees.dt hlengths with herr | h
    · rw [herr]
      exact .inl ⟨_, rfl, .inl rfl⟩
    · obtain ⟨h, ls, lt', dt', d₁, heq₁, hvalid₁, htook, hlt', hdt', heob⟩ := h
      rw [heq₁, ok_bind]
      dsimp only
      -- the trees are read from the block, and the loop starts behind them
      have hlen₁ : d₁.out.length ≤ d₁.limit := by rwa [htook.out, htook.limit]
      have hn₁ (hov₁ : d₁.overflow = false) : d₁.pending.length < n + 1 := by
        have hpending := congrArg List.length (htook.pending hov₁)
        have hlt := hn (htook.overflow hov₁)
        rw [List.length_append] at hpending
        omega
      rcases hdata hlt' hdt' heob htook.ready hlen₁ hn₁ with ⟨e, herr, he⟩ | h'
      · rw [herr]
        exact .inl ⟨e, rfl, he⟩
      · obtain ⟨d', ts, heq, hvalid, hexpand, hpending, hov₁, hov', hlimit, hready, hlen'⟩ := h'
        rw [heq, ok_bind]
        refine .inr ⟨.dynamic h ts, d', lt', dt', rfl, rfl, ⟨ls, hvalid₁, ?_, hvalid⟩, ?_,
          htook.overflow hov₁, hov', hlimit.trans htook.limit, hready, hlen', hlt'.symbols,
          hdt'.symbols⟩
        · rw [htook.pending hov₁, hpending, List.append_assoc]
        · rw [← htook.out]
          exact hexpand
  | _ + 3 => exact .inl ⟨_, rfl, .inl rfl⟩

/-- **A block that is ahead is accepted.** -/
lemma tinfInflateBlock_reads (htrees : TreesKept lt dt) (hlengths : lengths.length = 288 + 32)
    (hd : d.Ready) (hov : d.overflow = false) (hsends : b.Sends d.pending rest)
    (hexpand : b.expand d.out = some out) (hlen : out.length ≤ d.limit)
    (hn : d.pending.length < n) :
    ∃ (d' : TinfData) (lt' dt' : TinfTree),
      tinfInflateBlock lengths n b.type d lt dt = .ok (d', lt', dt') ∧ d'.out = out
      ∧ d'.limit = d.limit ∧ d'.Ready ∧ d'.overflow = false ∧ d'.pending = rest
      ∧ TreesKept lt' dt' := by
  cases b with
  | stored pad data =>
    obtain rfl := Option.some.inj hexpand
    obtain ⟨d', heq, hout, hlimit, hready, hov', hrest⟩ :=
      tinfInflateUncompressedBlock_reads hd hov hsends hlen
    refine ⟨d', lt, dt, ?_, hout, hlimit, hready, hov', hrest, htrees⟩
    rw [Block.type, tinfInflateBlock, heq]
    rfl
  | fixed ts =>
    obtain ⟨hw, hvalid⟩ := hsends
    have hfixed := tinfFixedDtree_decodes htrees.dt
    have hts : ts.length < n := by
      have hbits := congrArg List.length hw
      have htokens := length_le_encodeTokens hvalid
      rw [List.length_append] at hbits
      omega
    obtain ⟨d', heq, hout, hlimit, hready, hov', hrest⟩ :=
      tinfInflateBlockData_reads tinfFixedLtree_decodes hfixed
        ⟨by decide +kernel, by decide +kernel⟩ hd hov hvalid hexpand hlen hw hts
    refine ⟨d', _, _, ?_, hout, hlimit, hready, hov', hrest, tinfFixedLtree_decodes.symbols,
      hfixed.symbols⟩
    rw [Block.type, tinfInflateBlock, tinfBuildFixedTrees]
    dsimp only
    rw [heq]
    rfl
  | dynamic h ts =>
    obtain ⟨ls, hvalid, hw, hts⟩ := hsends
    rw [List.append_assoc] at hw
    obtain ⟨lt', dt', d₁, heq₁, hlt', hdt', heob, hready₁, hov₁, hrest₁, hout₁, hlimit₁⟩ :=
      tinfDecodeTrees_reads hvalid hd hov htrees.lt htrees.dt hlengths hw
    have hcount : ts.length < n := by
      have hbits := congrArg List.length hw
      have htokens := length_le_encodeTokens hts
      rw [List.length_append, List.length_append] at hbits
      omega
    obtain ⟨d', heq, hout, hlimit, hready, hov', hrest⟩ :=
      tinfInflateBlockData_reads hlt' hdt' heob hready₁ hov₁ hts (by rwa [hout₁])
        (by rwa [hlimit₁]) hrest₁ hcount
    refine ⟨d', lt', dt', ?_, hout, hlimit.trans hlimit₁, hready, hov', hrest, hlt'.symbols,
      hdt'.symbols⟩
    rw [Block.type, tinfInflateBlock, heq₁, ok_bind]
    dsimp only
    rw [heq]
    rfl

/-! ### The blocks -/

/-- **What is accepted is a list of blocks**, whose last one says that it is; by induction on the
fuel, as a block takes three bits at least. -/
lemma tinfBlocks_cases (htrees : TreesKept lt dt) (hlengths : lengths.length = 288 + 32)
    (hd : d.Ready) (hov : d.overflow = false) (hlen : d.out.length ≤ d.limit)
    (hn : d.pending.length < n) (hk : d.pending.length < k) :
    (∃ e, tinfBlocks lengths n k d lt dt = .error e ∧ e.Returned)
      ∨ ∃ bs d', tinfBlocks lengths n k d lt dt = .ok d' ∧ Sends bs d.pending d'.pending
        ∧ bs.foldlM Block.expand d.out = some d'.out ∧ d'.overflow = false ∧ d'.limit = d.limit
        ∧ d'.out.length ≤ d'.limit := by
  induction k generalizing d lt dt with
  | zero => omega
  | succ k ih =>
    obtain ⟨v, d₁, hget₁, hv, htook₁⟩ := tinfGetbits_took hd (by norm_num : 1 ≤ 24)
    obtain ⟨btype, d₂, hget₂, -, htook₂⟩ := tinfGetbits_took htook₁.ready (by norm_num : 2 ≤ 24)
    have htook := htook₁.trans htook₂
    rw [tinfBlocks, hget₁, ok_bind]
    dsimp only
    rw [hget₂, ok_bind]
    dsimp only
    have hlen₂ : d₂.out.length ≤ d₂.limit := by rwa [htook.out, htook.limit]
    have hshort (hov₂ : d₂.overflow = false) : d₂.pending.length + 3 = d.pending.length := by
      rw [htook.pending hov₂]
      simp only [List.length_append, length_bits]
      ring
    rcases tinfInflateBlock_cases htrees hlengths htook.ready hlen₂
      (fun hov₂ => by have := hshort hov₂; omega) (Nat.zero_lt_of_lt hn) with ⟨e, herr, he⟩ | h
    · rw [herr]
      exact .inl ⟨e, rfl, he⟩
    · obtain ⟨b, d₃, lt', dt', heq, rfl, hsends, hexpand, hov₂, hov₃, hlimit, hready, hlen₃,
        htrees'⟩ := h
      have hbits := htook.pending hov₂
      have hle := hsends.length_le
      have h3 := hshort hov₂
      rw [htook.out] at hexpand
      rw [heq, ok_bind]
      dsimp only
      -- the bit that was read says whether another block follows
      by_cases h0 : v = 0
      · rw [if_pos h0]
        rcases ih htrees' hready hov₃ hlen₃ (by omega) (by omega) with herr | h'
        · exact .inl herr
        · obtain ⟨bs, d', heq', hsends', hexpand', hov', hlimit', hlen'⟩ := h'
          refine .inr ⟨b :: bs, d', heq', ?_, ?_, hov',
            hlimit'.trans (hlimit.trans htook.limit), hlen'⟩
          · rw [hbits, h0]
            exact .more hsends hsends'
          · rw [List.foldlM_cons, hexpand]
            exact hexpand'
      · obtain rfl : v = 1 := by omega
        rw [if_neg h0]
        refine .inr ⟨[b], d₃, rfl, ?_, ?_, hov₃, hlimit.trans htook.limit, hlen₃⟩
        · rw [hbits]
          exact .last hsends
        · rw [List.foldlM_cons, hexpand]
          rfl

/-- The bits of the head of a block are read. -/
lemma tinfGetbits_head {v btype : ℕ} {mid : List Bool} (hd : d.Ready) (hov : d.overflow = false)
    (hv : v < 2) (hbtype : btype < 4) (hw : d.pending = bits 1 v ++ bits 2 btype ++ mid) :
    ∃ d₁ d₂, tinfGetbits d 1 = .ok (v, d₁) ∧ tinfGetbits d₁ 2 = .ok (btype, d₂) ∧ d₂.Ready
      ∧ d₂.overflow = false ∧ d₂.pending = mid ∧ d₂.out = d.out ∧ d₂.limit = d.limit := by
  rw [List.append_assoc] at hw
  obtain ⟨d₁, hget₁, htook₁, hov₁, hrest₁⟩ := tinfGetbits_reads hd hov (by norm_num) hv hw
  obtain ⟨d₂, hget₂, htook₂, hov₂, hrest₂⟩ :=
    tinfGetbits_reads htook₁.ready hov₁ (by norm_num) hbtype hrest₁
  exact ⟨d₁, d₂, hget₁, hget₂, htook₂.ready, hov₂, hrest₂, htook₂.out.trans htook₁.out,
    htook₂.limit.trans htook₁.limit⟩

/-- **A list of blocks that is ahead is accepted**, by induction on it. -/
lemma tinfBlocks_reads {w : List Bool} (hsends : Sends bs w rest) (htrees : TreesKept lt dt)
    (hlengths : lengths.length = 288 + 32) (hd : d.Ready) (hov : d.overflow = false)
    (hw : d.pending = w) (hexpand : bs.foldlM Block.expand d.out = some out)
    (hlen : out.length ≤ d.limit) (hn : d.pending.length < n) (hk : d.pending.length < k) :
    ∃ d', tinfBlocks lengths n k d lt dt = .ok d' ∧ d'.out = out ∧ d'.overflow = false := by
  have htype (b : Block) : b.type < 4 := by
    cases b <;> simp only [Block.type] <;> norm_num
  induction hsends generalizing d lt dt k with
  -- the final bit is set: the loop ends behind this block
  | @last b mid after hsend =>
    obtain ⟨k, rfl⟩ : ∃ k', k = k' + 1 := ⟨k - 1, by omega⟩
    obtain ⟨d₁, d₂, hget₁, hget₂, hready₂, hov₂, hrest₂, hout₂, hlimit₂⟩ :=
      tinfGetbits_head hd hov Nat.one_lt_two (htype b) hw
    rw [List.foldlM_cons, Option.bind_eq_bind, Option.bind_eq_some_iff] at hexpand
    obtain ⟨mid', hexpand, hnil⟩ := hexpand
    obtain rfl : mid' = out := Option.some.inj hnil
    have hshort := congrArg List.length hw
    simp only [List.length_append, length_bits] at hshort
    subst hrest₂
    obtain ⟨d₃, lt', dt', heq, hout, -, -, hov₃, -, -⟩ :=
      tinfInflateBlock_reads htrees hlengths hready₂ hov₂ hsend (by rwa [hout₂])
        (by rwa [hlimit₂]) (by omega : _ < n)
    refine ⟨d₃, ?_, hout, hov₃⟩
    rw [tinfBlocks, hget₁, ok_bind]
    dsimp only
    rw [hget₂, ok_bind]
    dsimp only
    rw [heq, ok_bind]
    dsimp only
    rw [if_neg Nat.one_ne_zero]
    rfl
  | @more b bs mid mid' after hsend hsends ih =>
    obtain ⟨k, rfl⟩ : ∃ k', k = k' + 1 := ⟨k - 1, by omega⟩
    obtain ⟨d₁, d₂, hget₁, hget₂, hready₂, hov₂, hrest₂, hout₂, hlimit₂⟩ :=
      tinfGetbits_head hd hov Nat.two_pos (htype b) hw
    rw [List.foldlM_cons, Option.bind_eq_bind, Option.bind_eq_some_iff] at hexpand
    obtain ⟨mid'', hexpand, hexpand'⟩ := hexpand
    have hgrows := Block.length_le_foldlM hexpand'
    have hshort := congrArg List.length hw
    have hle := hsend.length_le
    simp only [List.length_append, length_bits] at hshort
    subst hrest₂
    obtain ⟨d₃, lt', dt', heq, rfl, hlimit, hready, hov₃, hrest₃, htrees'⟩ :=
      tinfInflateBlock_reads htrees hlengths hready₂ hov₂ hsend (by rwa [hout₂])
        (by rw [hlimit₂]; omega) (by omega : _ < n)
    obtain ⟨d', heq', hout, hov'⟩ :=
      ih htrees' hready hov₃ hrest₃ hexpand' (by rw [hlimit, hlimit₂]; exact hlen)
        (by rw [hrest₃]; omega) (by rw [hrest₃]; omega : _ < k)
    refine ⟨d', ?_, hout, hov'⟩
    rw [tinfBlocks, hget₁, ok_bind]
    dsimp only
    rw [hget₂, ok_bind]
    dsimp only
    rw [heq, ok_bind]
    dsimp only
    rw [if_pos rfl, heq']

/-! ### `tinf_uncompress` -/

variable (init : TinfScratch) (destLen : ℕ) (source : List UInt8)

lemma pending_start : pending ⟨source, 0, 0, false, [], destLen⟩ = stream source := rfl

lemma ready_start : TinfData.Ready ⟨source, 0, 0, false, [], destLen⟩ :=
  ⟨Nat.one_pos, by norm_num, fun h => absurd h (by simp)⟩

/-- `tinf_uncompress` returns an error, or the output of the blocks that it has read. -/
lemma tinfUncompress_cases :
    (∃ e, tinfUncompress init destLen source = .error e ∧ e.Returned)
      ∨ ∃ bs rest out, tinfUncompress init destLen source = .ok out
        ∧ Sends bs (stream source) rest ∧ expand bs = some out ∧ out.length ≤ destLen := by
  have hfuel : (pending ⟨source, 0, 0, false, [], destLen⟩).length < 8 * source.length + 1 := by
    rw [pending_start, length_stream]
    exact Nat.lt_succ_self _
  rw [tinfUncompress]
  rcases tinfBlocks_cases ⟨init.ltree_symbols, init.dtree_symbols⟩ init.lengths_length
    (ready_start destLen source) rfl (Nat.zero_le destLen) hfuel hfuel with ⟨e, herr, he⟩ | h
  · rw [herr]
    exact .inl ⟨e, rfl, he⟩
  · obtain ⟨bs, d', heq, hsends, hexpand, hov, hlimit, hlen⟩ := h
    rw [heq, ok_bind, hov]
    rw [hlimit] at hlen
    exact .inr ⟨bs, d'.pending, d'.out, rfl, hsends, hexpand, hlen⟩

/-- `tinf_uncompress` accepts the format. -/
lemma tinfUncompress_accepts {bs : List Block} (hsends : Sends bs (stream source) rest)
    (hexpand : expand bs = some out) (hlen : out.length ≤ destLen) :
    tinfUncompress init destLen source = .ok out := by
  have hfuel : (pending ⟨source, 0, 0, false, [], destLen⟩).length < 8 * source.length + 1 := by
    rw [pending_start, length_stream]
    exact Nat.lt_succ_self _
  obtain ⟨d', heq, rfl, hov⟩ :=
    tinfBlocks_reads hsends ⟨init.ltree_symbols, init.dtree_symbols⟩ init.lengths_length
      (ready_start destLen source) rfl rfl hexpand hlen hfuel hfuel
  rw [tinfUncompress, heq, ok_bind, hov]
  rfl

/-- **The decompressor accepts the format and nothing else**, and its output is what the data stand
for. -/
theorem tinfUncompress_ok_iff :
    tinfUncompress init destLen source = .ok out
      ↔ ∃ bs rest, Sends bs (stream source) rest ∧ expand bs = some out ∧ out.length ≤ destLen := by
  constructor
  · intro hok
    rcases tinfUncompress_cases init destLen source with ⟨e, herr, -⟩ | h
    · exact nomatch herr.symm.trans hok
    · obtain ⟨bs, rest, out', heq, hsends, hexpand, hlen⟩ := h
      obtain rfl := Except.ok.inj (heq.symm.trans hok)
      exact ⟨bs, rest, hsends, hexpand, hlen⟩
  · rintro ⟨bs, rest, hsends, hexpand, hlen⟩
    exact tinfUncompress_accepts init destLen source hsends hexpand hlen

/-- **On every input the decompressor returns**: no assertion fails, no access is outside an array,
no loop goes on, and there is no more output than the caller has room for. -/
theorem tinfUncompress_returned :
    tinfUncompress init destLen source = .error .dataError
      ∨ tinfUncompress init destLen source = .error .bufError
      ∨ ∃ out, tinfUncompress init destLen source = .ok out ∧ out.length ≤ destLen := by
  rcases tinfUncompress_cases init destLen source with ⟨e, herr, rfl | rfl⟩ | h
  · exact .inl herr
  · exact .inr (.inl herr)
  · obtain ⟨bs, rest, out, heq, -, -, hlen⟩ := h
    exact .inr (.inr ⟨out, heq, hlen⟩)

end MicroOS
