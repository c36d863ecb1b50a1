import MicroOS.User.TinfTrees

/-!
The compressed data of a block, `tinf_inflate_block_data`.

* `TinfStop.Returned`: the codes that a function of the decompressor returns, as opposed to a failed
  assertion, an access outside an array or a loop without end.
* `tinfInflateMatch_cases`, `tinfInflateBlockData_cases`: what is accepted are tokens, and the
  output is what they stand for.
* `tinfInflateMatch_reads`, `tinfInflateBlockData_reads`: tokens that are ahead are accepted.
-/

namespace MicroOS

open BitStream Canonical Checked Deflate TinfData

variable {t lt dt : TinfTree} {d d' : TinfData} {w rest : List Bool} {lit dist : List ℕ}
  {ts : List Token} {out : List UInt8} {n num v sym l x s y : ℕ}

/-- A code that is returned. -/
def TinfStop.Returned (e : TinfStop) : Prop := e = .dataError ∨ e = .bufError

/-! ### Words that are ahead -/

/-- **Bits that are ahead are read.** -/
lemma tinfGetbits_reads (hd : d.Ready) (hov : d.overflow = false) (hnum : num ≤ 24)
    (hv : v < 2 ^ num) (hw : d.pending = bits num v ++ rest) :
    ∃ d', tinfGetbits d num = .ok (v, d') ∧ d.Took (bits num v) d' ∧ d'.overflow = false
      ∧ d'.pending = rest := by
  obtain ⟨v', d', hget, hv', htook⟩ := tinfGetbits_took hd hnum
  obtain ⟨heq, hov', hrest⟩ := htook.of_length hov hw (by rw [length_bits, length_bits])
  obtain rfl := bits_inj hv' hv heq
  exact ⟨d', hget, htook, hov', hrest⟩

/-- So are those that are added to a base. -/
lemma tinfGetbitsBase_reads (base : ℕ) (hd : d.Ready) (hov : d.overflow = false) (hnum : num ≤ 24)
    (hv : v < 2 ^ num) (hw : d.pending = bits num v ++ rest) :
    ∃ d', tinfGetbitsBase d num base = .ok (base + v, d') ∧ d.Took (bits num v) d'
      ∧ d'.overflow = false ∧ d'.pending = rest := by
  obtain ⟨v', d', hget, hv', htook⟩ := tinfGetbitsBase_took base hd hnum
  obtain ⟨heq, hov', hrest⟩ := htook.of_length hov hw (by rw [length_bits, length_bits])
  obtain rfl := bits_inj hv' hv heq
  exact ⟨d', hget, htook, hov', hrest⟩

/-- The tree of a code that has a symbol. -/
lemma TinfTree.Decodes.sound_of {ls : List ℕ} {lim : ℕ} (h : t.Decodes ls lim) (hs : Coded ls s)
    (hle : s ≤ lim) : t.Sound := by
  refine h.sound ?_
  have hmax := h.le_maxSym s hs hle
  omega

/-! ### Copies -/

/-- The last byte of a copy. -/
lemma copyBack_succ (dist n : ℕ) (out : List UInt8) :
    copyBack dist (n + 1) out
      = copyBack dist n out ++ [(copyBack dist n out).getD ((copyBack dist n out).length - dist) 0]
    := by
  induction n generalizing out with
  | zero => rfl
  | succ n ih => rw [copyBack, ih, copyBack]

/-- The loop that copies a match. -/
lemma tinfCopyByte_loop {offs : ℕ} (hpos : 0 < offs) (hle : offs ≤ d.out.length)
    (hroom : d.out.length + n ≤ d.limit) :
    (List.range n).foldlM (tinfCopyByte d.out.length offs) d
      = .ok { d with out := copyBack offs n d.out } := by
  induction n with
  | zero => rfl
  | succ n ih =>
    have hlen : (copyBack offs n d.out).length = d.out.length + n := length_copyBack _ _ _
    have hget : tinfGet (copyBack offs n d.out) (d.out.length + n - offs)
        = .ok ((copyBack offs n d.out).getD ((copyBack offs n d.out).length - offs) 0) := by
      rw [tinfGet_of_lt 0 (by omega), hlen]
    rw [List.range_succ, List.foldlM_append, ih (by omega), ok_bind, List.foldlM_cons,
      tinfCopyByte, if_neg (by omega), hget, ok_bind, store, if_pos (by dsimp only; omega),
      copyBack_succ]
    rfl

/-- The tables of the format. -/
lemma tinfLength_tables (hl : l < 29) :
    tinfGet tinfLengthBits l = .ok (lengthTable.getD l 0).1
      ∧ tinfGet tinfLengthBase l = .ok (lengthTable.getD l 0).2
      ∧ (lengthTable.getD l 0).1 ≤ 24 :=
  (by decide : ∀ l < 29, tinfGet tinfLengthBits l = .ok (lengthTable.getD l 0).1
    ∧ tinfGet tinfLengthBase l = .ok (lengthTable.getD l 0).2
    ∧ (lengthTable.getD l 0).1 ≤ 24) l hl

/-- The tables of the distances are those of the format. -/
lemma tinfDist_tables (hs : s < 30) :
    tinfGet tinfDistBits s = .ok (distTable.getD s 0).1
      ∧ tinfGet tinfDistBase s = .ok (distTable.getD s 0).2
      ∧ (distTable.getD s 0).1 ≤ 24 ∧ 0 < (distTable.getD s 0).2 :=
  (by decide : ∀ s < 30, tinfGet tinfDistBits s = .ok (distTable.getD s 0).1
    ∧ tinfGet tinfDistBase s = .ok (distTable.getD s 0).2
    ∧ (distTable.getD s 0).1 ≤ 24 ∧ 0 < (distTable.getD s 0).2) s hs

/-! ### A match -/

/-- **What is accepted as a match is one**, behind the symbol of its length. -/
lemma tinfInflateMatch_cases (hdt : dt.Decodes dist 29) (hd : d.Ready) (hsym : 256 < sym)
    (hlen : d.out.length ≤ d.limit) :
    (∃ e, tinfInflateMatch lt dt sym d = .error e ∧ e.Returned)
      ∨ ∃ l x s y d' out, sym = 257 + l ∧ (sym : ℤ) ≤ lt.maxSym ∧ l < 29 ∧ s < 30
        ∧ Coded dist s ∧ x < 2 ^ (lengthTable.getD l 0).1 ∧ y < 2 ^ (distTable.getD s 0).1
        ∧ tinfInflateMatch lt dt sym d = .ok d' ∧ Token.expand d.out (.copy l x s y) = some out
        ∧ { d with out }.Took (bits (lengthTable.getD l 0).1 x
            ++ (code dist s ++ bits (distTable.getD s 0).1 y)) d'
        ∧ d'.out.length ≤ d'.limit := by
  rw [tinfInflateMatch]
  by_cases hbad : (sym : ℤ) > lt.maxSym ∨ sym - 257 > 28 ∨ dt.maxSym = -1
  · rw [if_pos hbad]
    exact .inl ⟨_, rfl, .inl rfl⟩
  rw [if_neg hbad]
  push Not at hbad
  obtain ⟨hmax, hl, hdmax⟩ := hbad
  obtain ⟨l, rfl⟩ : ∃ l, sym = 257 + l := ⟨sym - 257, by omega⟩
  rw [Nat.add_sub_cancel_left] at hl ⊢
  obtain ⟨hbits, hbase, hle⟩ := tinfLength_tables (by omega : l < 29)
  -- the extra bits of the length, the distance symbol, and its extra bits
  obtain ⟨x, d₁, hget, hx, htook₁⟩ := tinfGetbitsBase_took (lengthTable.getD l 0).2 hd hle
  obtain ⟨w, s, d₂, hdec, hreads, htook₂⟩ := tinfDecodeSymbol_took (hdt.sound hdmax) htook₁.ready
  rw [hbits, ok_bind, hbase, ok_bind, hget, ok_bind]
  dsimp only
  rw [hdec, ok_bind]
  dsimp only
  by_cases hfar : (s : ℤ) > dt.maxSym ∨ s > 29
  · rw [if_pos hfar]
    exact .inl ⟨_, rfl, .inl rfl⟩
  rw [if_neg hfar]
  push Not at hfar
  obtain ⟨hsmax, hs⟩ := hfar
  obtain ⟨hcoded, rfl⟩ := (hdt.of_reads w s hreads).resolve_right (by omega)
  obtain ⟨hbits', hbase', hle', hpos⟩ := tinfDist_tables (by omega : s < 30)
  obtain ⟨y, d₃, hget', hy, htook₃⟩ := tinfGetbitsBase_took (distTable.getD s 0).2 htook₂.ready hle'
  rw [hbits', ok_bind, hbase', ok_bind, hget', ok_bind]
  dsimp only
  have htook := (htook₁.trans htook₂).trans htook₃
  have hout : d₃.out = d.out := htook.out
  have hlen₃ : d₃.out.length ≤ d₃.limit := by rwa [hout, htook.limit]
  -- the distance reaches before the output, or the output has no room
  by_cases hback : (distTable.getD s 0).2 + y > d₃.out.length
  · rw [if_pos hback]
    exact .inl ⟨_, rfl, .inl rfl⟩
  by_cases hroom : d₃.limit - d₃.out.length < (lengthTable.getD l 0).2 + x
  · rw [if_neg hback, if_pos hroom]
    exact .inl ⟨_, rfl, .inr rfl⟩
  rw [if_neg hback, if_neg hroom, tinfCopyByte_loop (by omega) (by omega) (by omega)]
  refine .inr ⟨l, x, s, y, _, _, rfl, hmax, by omega, by omega, hcoded, hx, hy, rfl,
    if_pos (by rw [← hout]; omega), ?_, ?_⟩
  · rw [hout, ← List.append_assoc]
    exact htook.withOut _
  · dsimp only
    rw [length_copyBack]
    omega

/-- **A match that is ahead is accepted**, if the output has room for it. -/
lemma tinfInflateMatch_reads (hdt : dt.Decodes dist 29) (hd : d.Ready) (hov : d.overflow = false)
    (hmax : (257 + l : ℕ) ≤ lt.maxSym) (hvalid : Token.Valid lit dist (.copy l x s y))
    (hexpand : Token.expand d.out (.copy l x s y) = some out) (hlen : out.length ≤ d.limit)
    (hw : d.pending = bits (lengthTable.getD l 0).1 x
      ++ (code dist s ++ (bits (distTable.getD s 0).1 y ++ rest))) :
    ∃ d', tinfInflateMatch lt dt (257 + l) d = .ok d' ∧ d'.out = out ∧ d'.limit = d.limit
      ∧ d'.Ready ∧ d'.overflow = false ∧ d'.pending = rest := by
  obtain ⟨-, hcoded, hl, hs, hx, hy⟩ := hvalid
  obtain ⟨hbits, hbase, hle⟩ := tinfLength_tables hl
  obtain ⟨hbits', hbase', hle', hpos⟩ := tinfDist_tables hs
  have hsmax : (s : ℤ) ≤ dt.maxSym := hdt.le_maxSym s hcoded (by omega)
  obtain ⟨d₁, hget, htook₁, hov₁, hrest₁⟩ :=
    tinfGetbitsBase_reads (lengthTable.getD l 0).2 hd hov hle hx hw
  obtain ⟨d₂, hdec, htook₂, hov₂, hrest₂⟩ := tinfDecodeSymbol_reads
    (hdt.sound_of hcoded (by omega)) htook₁.ready hov₁ hrest₁ (hdt.reads s hcoded)
  obtain ⟨d₃, hget', htook₃, hov₃, hrest₃⟩ :=
    tinfGetbitsBase_reads (distTable.getD s 0).2 htook₂.ready hov₂ hle' hy hrest₂
  have htook := (htook₁.trans htook₂).trans htook₃
  have hout : d₃.out = d.out := htook.out
  have hlimit : d₃.limit = d.limit := htook.limit
  rw [Token.expand] at hexpand
  split_ifs at hexpand with hback
  obtain rfl := Option.some.inj hexpand
  rw [length_copyBack] at hlen
  set offs := (distTable.getD s 0).2 + y with hoffs
  set len := (lengthTable.getD l 0).2 + x with hlen'
  refine ⟨{ d₃ with out := copyBack offs len d₃.out }, ?_, by rw [hout], hlimit,
    htook₃.ready.withOut _, hov₃, hrest₃⟩
  rw [tinfInflateMatch, if_neg (by omega), Nat.add_sub_cancel_left, hbits, ok_bind, hbase, ok_bind,
    hget, ok_bind]
  dsimp only
  rw [hdec, ok_bind]
  dsimp only
  rw [if_neg (by omega), hbits', ok_bind, hbase', ok_bind, hget', ok_bind]
  dsimp only
  have hback₃ : offs ≤ d₃.out.length := by rwa [hout]
  have hroom₃ : d₃.out.length + len ≤ d₃.limit := by rwa [hout, hlimit]
  rw [if_neg (by omega), if_neg (by omega),
    tinfCopyByte_loop (by omega) hback₃ hroom₃]

/-! ### The tokens of a block -/

/-- Where `overflow` is set, the next symbol is an error. -/
lemma tinfInflateBlockData_overflow (hlt : lt.Sound) (hd : d.Ready) (hov : d.overflow = true) :
    tinfInflateBlockData lt dt (n + 1) d = .error .dataError := by
  obtain ⟨w, s, d', hdec, -, htook⟩ := tinfDecodeSymbol_took hlt hd
  rw [tinfInflateBlockData, hdec, ok_bind]
  dsimp only
  rw [if_pos (htook.sticky hov)]

/-- **What is accepted are tokens, and the output is what they stand for.** -/
lemma tinfInflateBlockData_cases (hlt : lt.Decodes lit 285) (hdt : dt.Decodes dist 29)
    (heob : Coded lit 256) (hd : d.Ready) (hlen : d.out.length ≤ d.limit)
    (hov : d.overflow = false) (hn : d.pending.length < n) :
    (∃ e, tinfInflateBlockData lt dt n d = .error e ∧ e.Returned)
      ∨ ∃ d' ts out, tinfInflateBlockData lt dt n d = .ok d' ∧ (∀ t ∈ ts, Token.Valid lit dist t)
        ∧ ts.foldlM Token.expand d.out = some out
        ∧ { d with out }.Took (encodeTokens lit dist ts) d' ∧ d'.overflow = false
        ∧ d'.out.length ≤ d'.limit := by
  have hsound := hlt.sound_of heob (by norm_num)
  have h256 : (256 : ℕ) ≤ lt.maxSym := hlt.le_maxSym 256 heob (by norm_num)
  induction n generalizing d with
  | zero => omega
  | succ n ih =>
    obtain ⟨w, s, d₁, hdec, hreads, htook⟩ := tinfDecodeSymbol_took hsound hd
    rw [tinfInflateBlockData, hdec, ok_bind]
    dsimp only
    cases hov₁ : d₁.overflow with
    | true => exact .inl ⟨_, rfl, .inl rfl⟩
    | false =>
      have hpending := congrArg List.length (htook.pending hov₁)
      have hw := List.length_pos_of_ne_nil hreads.ne_nil
      rw [List.length_append] at hpending
      have hlen₁ : d₁.out.length ≤ d₁.limit := by rwa [htook.out, htook.limit]
      rw [if_neg (by decide)]
      by_cases hs : s < 256
      · -- a literal
        obtain ⟨hcoded, rfl⟩ := (hlt.of_reads w s hreads).resolve_right (by omega)
        rw [if_pos hs]
        by_cases hfull : d₁.out.length = d₁.limit
        · rw [if_pos hfull]
          exact .inl ⟨_, rfl, .inr rfl⟩
        have hbyte : (UInt8.ofNat s).toNat = s := UInt8.toNat_ofNat_of_lt' hs
        set b := UInt8.ofNat s
        have hstore : d₁.store b = .ok { d₁ with out := d₁.out ++ [b] } :=
          if_pos (by omega)
        rw [if_neg hfull, hstore, ok_bind]
        rcases ih (d := { d₁ with out := d₁.out ++ [b] })
          (htook.ready.withOut _)
          (by rw [List.length_append, List.length_singleton]; dsimp only; omega) hov₁
          (by change d₁.pending.length < n; omega) with herr | h
        · exact .inl herr
        · obtain ⟨d', ts, out, heq, hvalid, hexpand, htook', hov', hlen'⟩ := h
          refine .inr ⟨d', .literal b :: ts, out, heq, ?_, ?_, ?_, hov', hlen'⟩
          · exact List.forall_mem_cons.mpr ⟨show Coded lit b.toNat by rwa [hbyte], hvalid⟩
          · rw [List.foldlM_cons, ← htook.out]
            exact hexpand
          · have h := (htook.withOut out).trans htook'
            rw [encodeTokens, List.flatMap_cons, List.append_assoc, Token.encode, hbyte]
            exact h
      · rw [if_neg hs]
        by_cases hend : s = 256
        · -- the end of the block
          subst hend
          obtain ⟨-, rfl⟩ := (hlt.of_reads w 256 hreads).resolve_right (by omega)
          rw [if_pos rfl]
          exact .inr ⟨d₁, [], d.out, rfl, fun t ht => absurd ht List.not_mem_nil, rfl,
            htook, hov₁, hlen₁⟩
        · rw [if_neg hend]
          -- a copy: its length and distance are read before the next token
          rcases tinfInflateMatch_cases hdt htook.ready (by omega : 256 < s) hlen₁
            with ⟨e, herr, he⟩ | h
          · rw [herr]
            exact .inl ⟨e, rfl, he⟩
          · obtain ⟨l, x, u, y, d₂, out₂, rfl, hmax, hl, hu, hcoded', hx, hy, hmatch, hexpand₂,
              htook₂, hlen₂⟩ := h
            obtain ⟨hcoded, rfl⟩ := (hlt.of_reads w _ hreads).resolve_right (by omega)
            rw [hmatch, ok_bind]
            have hout₂ : d₂.out = out₂ := htook₂.out
            cases hov₂ : d₂.overflow with
            | true =>
              obtain ⟨n, rfl⟩ : ∃ n', n = n' + 1 := ⟨n - 1, by omega⟩
              exact .inl ⟨_, tinfInflateBlockData_overflow hsound htook₂.ready hov₂, .inl rfl⟩
            | false =>
              have hpending₂ := congrArg List.length (htook₂.pending hov₂)
              rw [List.length_append] at hpending₂
              change d₁.pending.length = _ at hpending₂
              rcases ih htook₂.ready hlen₂ hov₂ (by omega) with herr | h
              · exact .inl herr
              · obtain ⟨d', ts, out, heq, hvalid, hexpand, htook', hov', hlen'⟩ := h
                refine .inr ⟨d', .copy l x u y :: ts, out, heq, ?_, ?_, ?_, hov', hlen'⟩
                · exact List.forall_mem_cons.mpr ⟨⟨hcoded, hcoded', hl, hu, hx, hy⟩, hvalid⟩
                · rw [List.foldlM_cons, ← htook.out, hexpand₂, ← hout₂]
                  exact hexpand
                · have h := ((htook.withOut out).trans (htook₂.withOut out)).trans htook'
                  rw [encodeTokens, List.flatMap_cons, List.append_assoc, Token.encode]
                  rw [List.append_assoc] at h ⊢
                  rwa [List.append_assoc] at h ⊢

/-- **Tokens that are ahead are accepted**, if the output has room for what they stand for. -/
lemma tinfInflateBlockData_reads (hlt : lt.Decodes lit 285) (hdt : dt.Decodes dist 29)
    (heob : Coded lit 256) (hd : d.Ready) (hov : d.overflow = false)
    (hvalid : ∀ t ∈ ts, Token.Valid lit dist t) (hexpand : ts.foldlM Token.expand d.out = some out)
    (hlen : out.length ≤ d.limit) (hw : d.pending = encodeTokens lit dist ts ++ rest)
    (hn : ts.length < n) :
    ∃ d', tinfInflateBlockData lt dt n d = .ok d' ∧ d'.out = out ∧ d'.limit = d.limit ∧ d'.Ready
      ∧ d'.overflow = false ∧ d'.pending = rest := by
  have hsound := hlt.sound_of heob (by norm_num)
  induction ts generalizing d n with
  | nil =>
    obtain ⟨n, rfl⟩ : ∃ n', n = n' + 1 := ⟨n - 1, by omega⟩
    -- no token is left: the code that is ahead is the end of the block
    obtain rfl : d.out = out := Option.some.inj hexpand
    obtain ⟨d', hdec, htook, hov', hrest⟩ :=
      tinfDecodeSymbol_reads hsound hd hov hw (hlt.reads 256 heob)
    refine ⟨d', ?_, htook.out, htook.limit, htook.ready, hov', hrest⟩
    rw [tinfInflateBlockData, hdec, ok_bind]
    dsimp only
    rw [hov', if_neg (by decide), if_neg (by norm_num), if_pos rfl]
    rfl
  | cons t ts ih =>
    obtain ⟨n, rfl⟩ : ∃ n', n = n' + 1 := ⟨n - 1, by omega⟩
    obtain ⟨ht, hts⟩ := List.forall_mem_cons.mp hvalid
    rw [List.length_cons] at hn
    rw [List.foldlM_cons, Option.bind_eq_bind, Option.bind_eq_some_iff] at hexpand
    obtain ⟨out₁, hexpand₁, hexpand⟩ := hexpand
    have hgrow := length_le_foldlM hexpand
    rw [encodeTokens, List.flatMap_cons, List.append_assoc, List.append_assoc,
      ← List.append_assoc (List.flatMap _ _), ← encodeTokens] at hw
    cases t with
    | literal b =>
      obtain ⟨d₁, hdec, htook, hov₁, hrest₁⟩ :=
        tinfDecodeSymbol_reads hsound hd hov hw (hlt.reads _ ht)
      obtain rfl : d.out ++ [b] = out₁ := Option.some.inj hexpand₁
      rw [List.length_append, List.length_singleton] at hgrow
      have hroom : d₁.out.length < d₁.limit := by rw [htook.out, htook.limit]; omega
      have hbyte : UInt8.ofNat b.toNat = b := UInt8.ofNat_toNat
      have hstore : d₁.store b = .ok { d₁ with out := d₁.out ++ [b] } := if_pos hroom
      rw [tinfInflateBlockData, hdec, ok_bind]
      dsimp only
      rw [hov₁, if_neg (by decide), if_pos b.toNat_lt, if_neg hroom.ne, hbyte, hstore, ok_bind]
      obtain ⟨d', heq, hout, hlimit, hready, hov', hrest⟩ :=
        ih (n := n) (d := { d₁ with out := d₁.out ++ [b] }) (htook.ready.withOut _) hov₁ hts
          (by dsimp only; rwa [htook.out]) (hlen.trans_eq htook.limit.symm) hrest₁
          (by omega)
      exact ⟨d', heq, hout, hlimit.trans htook.limit, hready, hov', hrest⟩
    | copy l x s y =>
      have hmax : (257 + l : ℕ) ≤ lt.maxSym := hlt.le_maxSym _ ht.1 (by have := ht.2.2.1; omega)
      rw [Token.encode, List.append_assoc, List.append_assoc, List.append_assoc] at hw
      obtain ⟨d₁, hdec, htook, hov₁, hrest₁⟩ :=
        tinfDecodeSymbol_reads hsound hd hov hw (hlt.reads _ ht.1)
      obtain ⟨d₂, hmatch, hout₂, hlimit₂, hready₂, hov₂, hrest₂⟩ :=
        tinfInflateMatch_reads hdt htook.ready hov₁ hmax ht (by rwa [htook.out])
          ((hgrow.trans hlen).trans_eq htook.limit.symm) hrest₁
      rw [tinfInflateBlockData, hdec, ok_bind]
      dsimp only
      rw [hov₁, if_neg (by decide), if_neg (by omega), if_neg (by omega), hmatch, ok_bind]
      obtain ⟨d', heq, hout, hlimit, hready, hov', hrest⟩ := ih (n := n) hready₂ hov₂ hts
        (by rwa [hout₂]) (hlen.trans_eq (hlimit₂.trans htook.limit).symm) hrest₂ (by omega)
      exact ⟨d', heq, hout, hlimit.trans (hlimit₂.trans htook.limit), hready, hov', hrest⟩

end MicroOS
