import MicroOS.User.TinfTokens

/-!
The codes of a block, `tinf_decode_trees`.

* `tinfReadClen_loop`: the code of the code lengths; `tinfLengthRun_cases`, `tinfLengthsLoop_cases`:
  the code lengths;
* `tinfReadClen_run`, `tinfBuildTree_both`: the two parts around them, the code of the code lengths
  and the trees of both codes;
* `tinfDecodeTrees_cases`: codes that are accepted may be sent, and the trees are theirs;
  `tinfDecodeTrees_reads`: codes that are ahead are accepted.
-/

namespace MicroOS

open BitStream Canonical Checked Deflate TinfData

variable {lt dt : TinfTree} {d d' : TinfData} {rest : List Bool} {lengths ls cl order : List ℕ}
  {ts : List LengthToken} {n num s total : ℕ}

/-- A run of lengths is stored. -/
lemma tinfStoreRun_eq (hn : num + n ≤ lengths.length) :
    ∃ lengths', tinfStoreRun lengths num s n = .ok lengths' ∧ lengths'.length = lengths.length
      ∧ lengths'.take (num + n) = lengths.take num ++ List.replicate n s := by
  induction n generalizing num lengths with
  | zero => exact ⟨lengths, rfl, rfl, by simp⟩
  | succ n ih =>
    have hset : (lengths.set num s).length = lengths.length := List.length_set
    obtain ⟨lengths', hrun, hlen, htake⟩ :=
      ih (by rw [hset]; omega : num + 1 + n ≤ (lengths.set num s).length)
    refine ⟨lengths', ?_, hlen.trans hset, ?_⟩
    · rw [tinfStoreRun, tinfSet, if_pos (by omega), ok_bind, hrun]
    · rw [Nat.add_succ, ← Nat.succ_add, htake, List.take_add_one,
        List.getElem?_set_self (by omega), List.take_set_of_le le_rfl, Option.toList_some,
        List.append_assoc, List.replicate_succ]
      rfl

/-! ### The code of the code lengths -/

/-- The order is one of all symbols. -/
lemma idxOf_lengthOrder (hn : n < 19) (hs : s < 19) :
    tinfGet tinfClcidx n = .ok (lengthOrder.getD n 0) ∧ lengthOrder.getD n 0 < 19
      ∧ (lengthOrder.idxOf s = n ↔ lengthOrder.getD n 0 = s) :=
  (by decide : ∀ n < 19, ∀ s < 19, tinfGet tinfClcidx n = .ok (lengthOrder.getD n 0)
    ∧ lengthOrder.getD n 0 < 19 ∧ (lengthOrder.idxOf s = n ↔ lengthOrder.getD n 0 = s)) n hn s hs

/-- **The code lengths of the code lengths are read.** -/
lemma tinfReadClen_loop (hd : d.Ready) (hlen : 19 ≤ lengths.length)
    (hzero : lengths.take 19 = List.replicate 19 0) (hn : n ≤ 19) :
    ∃ (order lengths' : List ℕ) (d' : TinfData),
      (List.range n).foldlM tinfReadClen (lengths, d) = .ok (lengths', d')
      ∧ order.length = n ∧ (∀ l ∈ order, l < 8) ∧ lengths'.length = lengths.length
      ∧ (∀ s < 19, lengths'.getD s 0 = order.getD (lengthOrder.idxOf s) 0)
      ∧ d.Took (order.flatMap (bits 3)) d' := by
  induction n with
  | zero =>
    refine ⟨[], lengths, d, rfl, rfl, by simp, rfl, fun s hs => ?_, Took.refl hd⟩
    have hget : lengths.getD s 0 = (lengths.take 19).getD s 0 := by
      rw [List.getD_eq_getElem _ _ (by omega),
        List.getD_eq_getElem _ _ (by rw [List.length_take]; omega), List.getElem_take]
    rw [hget, hzero, List.getD_replicate _ hs]
    rfl
  | succ n ih =>
    obtain ⟨order, lengths', d', hrun, horder, hlt, hlen', hget, htook⟩ := ih (by omega)
    obtain ⟨v, d'', hbits, hv, htook'⟩ := tinfGetbits_took htook.ready (by norm_num : 3 ≤ 24)
    obtain ⟨hidx, hpos, -⟩ := idxOf_lengthOrder (by omega : n < 19) (by norm_num : 0 < 19)
    refine ⟨order ++ [v], lengths'.set (lengthOrder.getD n 0) v, d'', ?_, by simp [horder], ?_,
      by rw [List.length_set, hlen'], fun s hs => ?_, ?_⟩
    · rw [List.range_succ, List.foldlM_append, hrun, ok_bind, List.foldlM_cons, tinfReadClen,
        hbits, ok_bind]
      dsimp only
      rw [hidx, ok_bind, tinfSet, if_pos (by omega), ok_bind]
      rfl
    · intro l hl
      rcases List.mem_append.mp hl with hl | hl
      · exact hlt l hl
      · rw [List.mem_singleton.mp hl]
        exact hv
    · obtain ⟨-, -, hiff⟩ := idxOf_lengthOrder (by omega : n < 19) hs
      rw [List.getD_eq_getElem?_getD, List.getElem?_set]
      by_cases heq : lengthOrder.getD n 0 = s
      · rw [if_pos heq, if_pos (by omega), Option.getD_some, hiff.mpr heq, ← horder,
          List.getD_append_right _ _ _ _ le_rfl, Nat.sub_self]
        rfl
      · have hne : lengthOrder.idxOf s ≠ n := fun h => heq (hiff.mp h)
        rw [if_neg heq, ← List.getD_eq_getElem?_getD, hget s hs]
        rcases Nat.lt_or_gt_of_ne hne with hlt' | hgt
        · rw [List.getD_append _ _ _ _ (by omega)]
        · rw [List.getD_eq_default _ _ (by omega), List.getD_eq_default _ _ (by simp; omega)]
    · rw [List.flatMap_append, List.flatMap_singleton]
      exact htook.trans htook'

/-! ### The code lengths -/

/-- The last of the lengths before a place. -/
lemma getLast?_take (hnum : num ≤ lengths.length) (h0 : num ≠ 0) :
    (lengths.take num).getLast? = some (lengths.getD (num - 1) 0) := by
  rw [List.getLast?_eq_getElem?, List.length_take, Nat.min_eq_left hnum,
    List.getElem?_take_of_lt (by omega), List.getElem?_eq_getElem (by omega),
    List.getD_eq_getElem _ _ (by omega)]

/-- **The symbol of a code length, with its extra bits.** -/
lemma tinfLengthRun_cases (hd : d.Ready) (hs : s < 19) (hnum : num ≤ lengths.length) :
    tinfLengthRun lengths num s d = .error .dataError
      ∨ ∃ (t : LengthToken) (r : ℕ × ℕ) (d' : TinfData), t.symbol = s
        ∧ t.extra.2 < 2 ^ t.extra.1 ∧ t.run (lengths.take num) = some r
        ∧ (∀ n, t = .len n → n < 16) ∧ tinfLengthRun lengths num s d = .ok (r.1, r.2, d')
        ∧ d.Took (bits t.extra.1 t.extra.2) d' := by
  rw [tinfLengthRun]
  by_cases h16 : s = 16
  · rw [if_pos h16]
    by_cases h0 : num = 0
    · rw [if_pos h0]
      exact .inl rfl
    · obtain ⟨x, d', hget, hx, htook⟩ := tinfGetbitsBase_took 3 hd (by norm_num : 2 ≤ 24)
      rw [if_neg h0, tinfGet_of_lt 0 (by omega), ok_bind, hget, ok_bind]
      refine .inr ⟨.again x, (lengths.getD (num - 1) 0, 3 + x), d', h16.symm, hx, ?_, by simp, rfl,
        htook⟩
      rw [LengthToken.run, getLast?_take hnum h0]
      rfl
  rw [if_neg h16]
  by_cases h17 : s = 17
  · obtain ⟨x, d', hget, hx, htook⟩ := tinfGetbitsBase_took 3 hd (by norm_num : 3 ≤ 24)
    rw [if_pos h17, hget, ok_bind]
    exact .inr ⟨.zeros x, _, d', h17.symm, hx, rfl, by simp, rfl, htook⟩
  rw [if_neg h17]
  by_cases h18 : s = 18
  · obtain ⟨x, d', hget, hx, htook⟩ := tinfGetbitsBase_took 11 hd (by norm_num : 7 ≤ 24)
    rw [if_pos h18, hget, ok_bind]
    exact .inr ⟨.manyZeros x, _, d', h18.symm, hx, rfl, by simp, rfl, htook⟩
  rw [if_neg h18]
  refine .inr ⟨.len s, _, d, rfl, Nat.one_pos, rfl, fun n hn => ?_, rfl, Took.refl hd⟩
  obtain rfl := LengthToken.len.inj hn
  omega

/-- The extra bits of a code length that are ahead. -/
lemma tinfLengthRun_reads {t : LengthToken} {r : ℕ × ℕ} (hd : d.Ready) (hov : d.overflow = false)
    (hnum : num ≤ lengths.length) (hsmall : ∀ n, t = .len n → n < 16)
    (hextra : t.extra.2 < 2 ^ t.extra.1) (hrun : t.run (lengths.take num) = some r)
    (hw : d.pending = bits t.extra.1 t.extra.2 ++ rest) :
    ∃ d', tinfLengthRun lengths num t.symbol d = .ok (r.1, r.2, d')
      ∧ d.Took (bits t.extra.1 t.extra.2) d' ∧ d'.overflow = false ∧ d'.pending = rest := by
  cases t with
  | len n =>
    have h16 := hsmall n rfl
    obtain rfl := Option.some.inj hrun
    refine ⟨d, ?_, Took.refl hd, hov, hw⟩
    rw [tinfLengthRun, LengthToken.symbol, if_neg (by omega), if_neg (by omega),
      if_neg (by omega)]
    rfl
  | again x =>
    obtain ⟨d', hget, htook, hov', hrest⟩ :=
      tinfGetbitsBase_reads 3 hd hov (by norm_num : 2 ≤ 24) hextra hw
    have h0 : num ≠ 0 := by
      rintro rfl
      exact nomatch hrun
    rw [LengthToken.run, getLast?_take hnum h0] at hrun
    obtain rfl := Option.some.inj hrun
    refine ⟨d', ?_, htook, hov', hrest⟩
    rw [tinfLengthRun, LengthToken.symbol, if_pos rfl, if_neg h0, tinfGet_of_lt 0 (by omega),
      ok_bind, hget]
    rfl
  | zeros x =>
    obtain ⟨d', hget, htook, hov', hrest⟩ :=
      tinfGetbitsBase_reads 3 hd hov (by norm_num : 3 ≤ 24) hextra hw
    obtain rfl := Option.some.inj hrun
    refine ⟨d', ?_, htook, hov', hrest⟩
    rw [tinfLengthRun, LengthToken.symbol, if_neg (by norm_num), if_pos rfl, hget]
    rfl
  | manyZeros x =>
    obtain ⟨d', hget, htook, hov', hrest⟩ :=
      tinfGetbitsBase_reads 11 hd hov (by norm_num : 7 ≤ 24) hextra hw
    obtain rfl := Option.some.inj hrun
    refine ⟨d', ?_, htook, hov', hrest⟩
    rw [tinfLengthRun, LengthToken.symbol, if_neg (by norm_num), if_neg (by norm_num), if_pos rfl,
      hget]
    rfl

/-- **What is accepted are code lengths.** -/
lemma tinfLengthsLoop_cases {lim : ℕ} (hlt : lt.Decodes cl lim) (hsound : lt.Sound)
    (hcl : cl.length = 19) (hd : d.Ready) (hlen : total ≤ lengths.length) (hnum : num ≤ total)
    (hn : total - num < n) (h16 : ∀ l ∈ lengths.take num, l < 16) :
    tinfLengthsLoop lt total n num lengths d = .error .dataError
      ∨ ∃ (ts : List LengthToken) (lengths' : List ℕ) (d' : TinfData),
        tinfLengthsLoop lt total n num lengths d = .ok (lengths', d')
        ∧ (∀ t ∈ ts, t.Valid cl)
        ∧ ts.foldlM LengthToken.expand (lengths.take num) = some (lengths'.take total)
        ∧ lengths'.length = lengths.length ∧ (∀ l ∈ lengths'.take total, l < 16)
        ∧ d.Took (ts.flatMap (LengthToken.encode cl)) d' := by
  induction n generalizing num lengths d with
  | zero => omega
  | succ n ih =>
    rw [tinfLengthsLoop]
    by_cases hlt' : num < total
    · obtain ⟨w, s, d₁, hdec, hreads, htook⟩ := tinfDecodeSymbol_took hsound hd
      rw [if_pos hlt', hdec, ok_bind]
      dsimp only
      by_cases hmax : (s : ℤ) > lt.maxSym
      · rw [if_pos hmax]
        exact .inl rfl
      obtain ⟨hcoded, rfl⟩ := (hlt.of_reads w s hreads).resolve_right (by omega)
      rw [if_neg hmax]
      -- what the symbol stands for is a run of one length
      rcases tinfLengthRun_cases htook.ready (hcl ▸ hcoded.1)
        (by omega : num ≤ lengths.length) with herr | h
      · rw [herr]
        exact .inl rfl
      obtain ⟨t, r, d₂, rfl, hextra, hrun, hsmall, heq, htook'⟩ := h
      obtain ⟨hpos, hr16⟩ := LengthToken.run_spec hrun h16 hsmall
      rw [heq, ok_bind]
      dsimp only
      by_cases hover : r.2 > total - num
      · rw [if_pos hover]
        exact .inl rfl
      obtain ⟨lengths₁, hstore, hlen₁, htake⟩ :=
        tinfStoreRun_eq (s := r.1) (by omega : num + r.2 ≤ lengths.length)
      rw [if_neg hover, hstore, ok_bind]
      have h16' : ∀ l ∈ lengths₁.take (num + r.2), l < 16 := by
        intro l hl
        rw [htake] at hl
        rcases List.mem_append.mp hl with hl | hl
        · exact h16 l hl
        · rw [List.eq_of_mem_replicate hl]
          exact hr16
      rcases ih htook'.ready (by omega) (by omega) (by omega) h16' with herr | h
      · exact .inl herr
      obtain ⟨ts, lengths', d', heq', hvalid, hexpand, hlen', hall, htook''⟩ := h
      refine .inr ⟨t :: ts, lengths', d', heq', ?_, ?_, hlen'.trans hlen₁, hall, ?_⟩
      · exact List.forall_mem_cons.mpr ⟨⟨hcoded, hextra, hsmall⟩, hvalid⟩
      · rw [List.foldlM_cons, LengthToken.expand, hrun, Option.map_some, ← htake]
        exact hexpand
      · rw [List.flatMap_cons, LengthToken.encode]
        exact (htook.trans htook').trans htook''
    · obtain rfl : num = total := by omega
      rw [if_neg hlt']
      exact .inr ⟨[], lengths, d, rfl, fun t ht => absurd ht List.not_mem_nil, rfl, rfl, h16,
        Took.refl hd⟩

/-- **Code lengths that are ahead are accepted.** -/
lemma tinfLengthsLoop_reads {lim : ℕ} (hlim : 18 ≤ lim) (hlt : lt.Decodes cl lim)
    (hsound : lt.Sound) (hcl : cl.length = 19) (hd : d.Ready) (hov : d.overflow = false)
    (hlen : total ≤ lengths.length) (hn : total - num < n) (hnum : num ≤ total)
    (h16 : ∀ l ∈ lengths.take num, l < 16) (hvalid : ∀ t ∈ ts, t.Valid cl)
    (hexpand : ts.foldlM LengthToken.expand (lengths.take num) = some ls) (hls : ls.length = total)
    (hw : d.pending = ts.flatMap (LengthToken.encode cl) ++ rest) :
    ∃ (lengths' : List ℕ) (d' : TinfData),
      tinfLengthsLoop lt total n num lengths d = .ok (lengths', d')
        ∧ lengths'.take total = ls ∧ (∀ l ∈ ls, l < 16) ∧ lengths'.length = lengths.length
        ∧ d'.Ready ∧ d'.overflow = false ∧ d'.pending = rest ∧ d'.out = d.out
        ∧ d'.limit = d.limit := by
  induction ts generalizing num lengths d n with
  | nil =>
    obtain rfl : lengths.take num = ls := Option.some.inj hexpand
    rw [List.length_take] at hls
    obtain rfl : num = total := by omega
    obtain ⟨n, rfl⟩ : ∃ n', n = n' + 1 := ⟨n - 1, by omega⟩
    rw [tinfLengthsLoop, if_neg (lt_irrefl _)]
    exact ⟨lengths, d, rfl, rfl, h16, rfl, hd, hov, hw, rfl, rfl⟩
  | cons t ts ih =>
    obtain ⟨⟨hcoded, hextra, hsmall⟩, hts⟩ := List.forall_mem_cons.mp hvalid
    rw [List.foldlM_cons, Option.bind_eq_bind, Option.bind_eq_some_iff] at hexpand
    obtain ⟨ls₁, hls₁, hexpand⟩ := hexpand
    obtain ⟨r, hrun, rfl⟩ := Option.map_eq_some_iff.mp hls₁
    obtain ⟨hpos, hr16⟩ := LengthToken.run_spec hrun h16 hsmall
    -- the tokens that are left only add lengths, so this run fits
    have hgrow := LengthToken.length_le_foldlM hexpand
    rw [List.length_append, List.length_take, List.length_replicate, hls] at hgrow
    have hnumlen : min num lengths.length = num := by omega
    rw [hnumlen] at hgrow
    obtain ⟨n, rfl⟩ : ∃ n', n = n' + 1 := ⟨n - 1, by omega⟩
    have hs19 : t.symbol < 19 := hcl ▸ hcoded.1
    rw [List.flatMap_cons, LengthToken.encode, List.append_assoc, List.append_assoc] at hw
    obtain ⟨d₁, hdec, htook, hov₁, hrest₁⟩ :=
      tinfDecodeSymbol_reads hsound hd hov hw (hlt.reads _ hcoded)
    have hmax := hlt.le_maxSym _ hcoded (by omega)
    obtain ⟨d₂, heq, htook', hov₂, hrest₂⟩ :=
      tinfLengthRun_reads htook.ready hov₁ (by omega) hsmall hextra hrun hrest₁
    obtain ⟨lengths₁, hstore, hlen₁, htake⟩ :=
      tinfStoreRun_eq (s := r.1) (by omega : num + r.2 ≤ lengths.length)
    have h16' : ∀ l ∈ lengths₁.take (num + r.2), l < 16 := by
      intro l hl
      rw [htake] at hl
      rcases List.mem_append.mp hl with hl | hl
      · exact h16 l hl
      · rw [List.eq_of_mem_replicate hl]
        exact hr16
    obtain ⟨lengths', d', heq', htake', hall, hlen', hready, hov', hrest', hout, hlimit⟩ :=
      ih (n := n) htook'.ready hov₂ (by omega) (by omega) (by omega) h16' hts (by rwa [htake])
        hrest₂
    refine ⟨lengths', d', ?_, htake', hall, hlen'.trans hlen₁, hready, hov', hrest',
      hout.trans (htook'.out.trans htook.out), hlimit.trans (htook'.limit.trans htook.limit)⟩
    rw [tinfLengthsLoop, if_pos (by omega), hdec, ok_bind]
    dsimp only
    rw [if_neg (by omega), heq, ok_bind]
    dsimp only
    rw [if_neg (by omega), hstore, ok_bind, heq']

/-! ### The trees -/

/-- The code lengths of the code lengths, in the order of the symbols. -/
lemma take_codeLengths {h : Header} (hlen : 19 ≤ lengths.length)
    (hget : ∀ s < 19, lengths.getD s 0 = h.order.getD (lengthOrder.idxOf s) 0) :
    lengths.take 19 = h.codeLengths := by
  refine List.ext_getElem (by simp [Header.codeLengths, hlen]) fun s hs hs' => ?_
  rw [List.length_take] at hs
  rw [List.getElem_take, ← List.getD_eq_getElem lengths 0 (by omega), hget s (by omega)]
  simp [Header.codeLengths]

/-- The code lengths of the code lengths have three bits. -/
lemma codeLengths_lt {h : Header} (horder : ∀ l ∈ h.order, l < 8) : ∀ l ∈ h.codeLengths, l < 8 := by
  intro l hl
  obtain ⟨s, -, rfl⟩ := List.mem_map.mp hl
  rcases Nat.lt_or_ge (lengthOrder.idxOf s) h.order.length with hlt | hge
  · rw [List.getD_eq_getElem _ _ hlt]
    exact horder _ (List.getElem_mem hlt)
  · rw [List.getD_eq_default _ _ hge]
    norm_num

/-- **The code lengths of the code lengths are read** into an array whose first lengths are cleared
before. -/
lemma tinfReadClen_run (hd : d.Ready) (hlen : 19 ≤ lengths.length) (hn : n ≤ 19) :
    ∃ (zeros order first : List ℕ) (d' : TinfData), tinfStoreRun lengths 0 0 19 = .ok zeros
      ∧ (List.range n).foldlM tinfReadClen (zeros, d) = .ok (first, d')
      ∧ order.length = n ∧ (∀ l ∈ order, l < 8) ∧ first.length = lengths.length
      ∧ (∀ hlit hdist ts, first.take 19 = (⟨hlit, hdist, order, ts⟩ : Header).codeLengths)
      ∧ d.Took (order.flatMap (bits 3)) d' := by
  obtain ⟨zeros, hzeros, hzlen, hztake⟩ :=
    tinfStoreRun_eq (s := 0) (by omega : 0 + 19 ≤ lengths.length)
  obtain ⟨order, first, d', hloop, horder, horder8, hflen, hfget, htook⟩ :=
    tinfReadClen_loop hd (by omega) hztake hn
  exact ⟨zeros, order, first, d', hzeros, hloop, horder, horder8, hflen.trans hzlen,
    fun hlit hdist ts => take_codeLengths (by omega) hfget, htook⟩

/-- `tinfBuildTree_spec`, for lengths that stand in front of others. -/
lemma tinfBuildTree_take (htake : lengths.take n = ls) (hn : n ≤ 288) (hlen : n ≤ lengths.length)
    (h16 : ∀ l ∈ ls, l < 16) (hlt : lt.symbols.length = 288) :
    (Usable ls ∧ ∃ t', tinfBuildTree lt lengths n = .ok t' ∧ t'.maxSym = lastCode ls
        ∧ ∀ lim, t'.Decodes ls lim)
      ∨ ¬ Usable ls ∧ tinfBuildTree lt lengths n = .error .dataError := by
  subst htake
  exact tinfBuildTree_spec hn hlen (fun l hl => Nat.le_of_lt_succ (h16 l hl)) hlt

/-- A length of both codes is that at its place in the array. -/
lemma getD_of_take (htake : lengths.take total = ls) (hs : s < total) :
    ls.getD s 0 = lengths.getD s 0 := by
  rw [← htake, List.getD_eq_getElem?_getD, List.getElem?_take_of_lt hs,
    ← List.getD_eq_getElem?_getD]

/-- **The trees of both codes** are built of the lengths that stand one behind the other. -/
lemma tinfBuildTree_both {hlit hdist : ℕ} (htake : lengths.take (hlit + hdist) = ls)
    (hlen : hlit + hdist ≤ lengths.length) (hlit₁ : hlit ≤ 286) (hdist₁ : hdist ≤ 30)
    (h16 : ∀ l ∈ ls, l < 16) (hlt : lt.symbols.length = 288) (hdt : dt.symbols.length = 288) :
    (Usable (ls.take hlit) ∧ Usable (ls.drop hlit) ∧ ∃ lt' dt' : TinfTree,
        (do let lt ← tinfBuildTree lt lengths hlit
            let dt ← tinfBuildTree dt (lengths.drop hlit) hdist
            return (lt, dt, d)) = .ok (lt', dt', d)
        ∧ lt'.Decodes (ls.take hlit) 285 ∧ dt'.Decodes (ls.drop hlit) 29)
      ∨ ¬ (Usable (ls.take hlit) ∧ Usable (ls.drop hlit))
        ∧ (do let lt ← tinfBuildTree lt lengths hlit
              let dt ← tinfBuildTree dt (lengths.drop hlit) hdist
              return (lt, dt, d)) = .error .dataError := by
  have hlitTake : lengths.take hlit = ls.take hlit := by
    rw [← htake, List.take_take, Nat.min_eq_left (by omega)]
  have hdistTake : (lengths.drop hlit).take hdist = ls.drop hlit := by
    rw [← htake, List.drop_take, Nat.add_sub_cancel_left]
  have hdistLen : hdist ≤ (lengths.drop hlit).length := by
    rw [List.length_drop]
    omega
  rcases tinfBuildTree_take hlitTake (by omega) (by omega)
    (fun l hl => h16 l (List.mem_of_mem_take hl)) hlt
    with ⟨hlusable, lt', hlt', -, hldec⟩ | ⟨hbad, herr⟩
  swap
  · rw [herr]
    exact .inr ⟨fun h => hbad h.1, rfl⟩
  rw [hlt', ok_bind]
  rcases tinfBuildTree_take hdistTake (by omega) hdistLen
    (fun l hl => h16 l (List.mem_of_mem_drop hl)) hdt
    with ⟨hdusable, dt', hdt', -, hddec⟩ | ⟨hbad, herr⟩
  · rw [hdt', ok_bind]
    exact .inl ⟨hlusable, hdusable, lt', dt', rfl, hldec 285, hddec 29⟩
  · rw [herr]
    exact .inr ⟨fun h => hbad h.2, rfl⟩

/-- **`tinf_decode_trees`** accepts codes that may be sent, and builds their trees. -/
lemma tinfDecodeTrees_cases (hd : d.Ready) (hlt : lt.symbols.length = 288)
    (hdt : dt.symbols.length = 288) (hlen : lengths.length = 288 + 32) :
    tinfDecodeTrees d lt dt lengths = .error .dataError
      ∨ ∃ (h : Header) (ls : List ℕ) (lt' dt' : TinfTree) (d' : TinfData),
        tinfDecodeTrees d lt dt lengths = .ok (lt', dt', d') ∧ h.Valid ls ∧ d.Took h.encode d'
        ∧ lt'.Decodes (ls.take h.hlit) 285 ∧ dt'.Decodes (ls.drop h.hlit) 29
        ∧ Coded (ls.take h.hlit) 256 := by
  obtain ⟨v₁, d₁, hget₁, hv₁, htook₁⟩ := tinfGetbitsBase_took 257 hd (by norm_num : 5 ≤ 24)
  obtain ⟨v₂, d₂, hget₂, hv₂, htook₂⟩ :=
    tinfGetbitsBase_took 1 htook₁.ready (by norm_num : 5 ≤ 24)
  obtain ⟨v₃, d₃, hget₃, hv₃, htook₃⟩ :=
    tinfGetbitsBase_took 4 htook₂.ready (by norm_num : 4 ≤ 24)
  rw [tinfDecodeTrees, hget₁, ok_bind]
  dsimp only
  rw [hget₂, ok_bind]
  dsimp only
  rw [hget₃, ok_bind]
  dsimp only
  by_cases hbound : 257 + v₁ > 286 ∨ 1 + v₂ > 30
  · rw [if_pos hbound]
    exact .inl rfl
  obtain ⟨zeros, order, first, d₄, hzeros, hloop, horder, horder8, hflen, htake, htook₄⟩ :=
    tinfReadClen_run htook₃.ready (by omega : 19 ≤ lengths.length) (by omega : 4 + v₃ ≤ 19)
  rw [if_neg hbound, hzeros, ok_bind, hloop, ok_bind]
  dsimp only
  -- the code of the code lengths
  have hcl8 := codeLengths_lt (h := ⟨257 + v₁, 1 + v₂, order, []⟩) horder8
  rcases tinfBuildTree_take (htake (257 + v₁) (1 + v₂) []) (by norm_num) (by omega)
    (fun l hl => (hcl8 l hl).trans (by norm_num)) hlt
    with ⟨husable, clt, hclt, hclmax, hcldec⟩ | ⟨-, herr⟩
  swap
  · rw [herr]
    exact .inl rfl
  rw [hclt, ok_bind]
  by_cases hempty : clt.maxSym = -1
  · rw [if_pos hempty]
    exact .inl rfl
  rw [if_neg hempty]
  -- the code lengths
  rcases tinfLengthsLoop_cases (hcldec 0) ((hcldec 0).sound hempty) (by simp [Header.codeLengths])
    htook₄.ready (by omega : 257 + v₁ + (1 + v₂) ≤ first.length) (Nat.zero_le _)
    (by omega : _ < 257 + v₁ + (1 + v₂) + 1) (by simp) with herr | h
  · rw [herr]
    exact .inl rfl
  obtain ⟨ts, lengths', d₅, hrun, hvalid, hexpand, hlen', h16, htook₅⟩ := h
  rw [hrun, ok_bind]
  dsimp only
  rw [tinfGet_of_lt 0 (by omega), ok_bind]
  by_cases heob : lengths'.getD 256 0 = 0
  · rw [if_pos heob]
    exact .inl rfl
  rw [if_neg heob]
  -- the codes
  rcases tinfBuildTree_both rfl (by omega) (by omega) (by omega) h16 (hcldec 0).symbols
    hdt with ⟨hlusable, hdusable, lt', dt', hbuild, hldec, hddec⟩ | ⟨-, herr⟩
  swap
  · rw [herr]
    exact .inl rfl
  have hget : (lengths'.take (257 + v₁ + (1 + v₂))).getD 256 0 ≠ 0 := by
    rwa [getD_of_take rfl (by omega)]
  have htotal : (lengths'.take (257 + v₁ + (1 + v₂))).length = 257 + v₁ + (1 + v₂) := by
    rw [List.length_take]
    omega
  refine .inr ⟨⟨257 + v₁, 1 + v₂, order, ts⟩, _, lt', dt', d₅, hbuild, ?_, ?_, hldec, hddec, ?_⟩
  · have hhlit : 257 ≤ 257 + v₁ ∧ 257 + v₁ ≤ 286 := by omega
    have hhdist : 1 ≤ 1 + v₂ ∧ 1 + v₂ ≤ 30 := by omega
    have hhorder : 4 ≤ order.length ∧ order.length ≤ 19 := by omega
    exact ⟨hhlit, hhdist, hhorder, horder8, husable, (lastCode_ne _).mp (hclmax ▸ hempty), hvalid,
      hexpand, htotal, hlusable, hdusable, hget⟩
  · rw [Header.encode]
    dsimp only
    rw [Nat.add_sub_cancel_left, Nat.add_sub_cancel_left, horder, Nat.add_sub_cancel_left]
    exact (((htook₁.trans htook₂).trans htook₃).trans htook₄).trans htook₅
  · refine ⟨by rw [List.length_take]; dsimp only; omega, ?_⟩
    rwa [← getD_of_take rfl (by omega : 256 < 257 + v₁)] at hget

/-- **Codes that are ahead are accepted.** -/
lemma tinfDecodeTrees_reads {h : Header} (hvalid : h.Valid ls) (hd : d.Ready)
    (hov : d.overflow = false) (hlt : lt.symbols.length = 288) (hdt : dt.symbols.length = 288)
    (hlen : lengths.length = 288 + 32) (hw : d.pending = h.encode ++ rest) :
    ∃ (lt' dt' : TinfTree) (d' : TinfData), tinfDecodeTrees d lt dt lengths = .ok (lt', dt', d')
      ∧ lt'.Decodes (ls.take h.hlit) 285 ∧ dt'.Decodes (ls.drop h.hlit) 29
      ∧ Coded (ls.take h.hlit) 256 ∧ d'.Ready ∧ d'.overflow = false ∧ d'.pending = rest
      ∧ d'.out = d.out ∧ d'.limit = d.limit := by
  obtain ⟨hlit, hdist, order, ts⟩ := h
  obtain ⟨⟨hlit₀, hlit₁⟩, ⟨hdist₀, hdist₁⟩, ⟨horder₀, horder₁⟩, horder8, hclusable, hclne, hts,
    hlengths, htotal, hlitUsable, hdistUsable, heob⟩ := hvalid
  dsimp only at *
  simp only [Header.encode, List.append_assoc] at hw
  obtain ⟨d₁, hget₁, htook₁, hov₁, hrest₁⟩ :=
    tinfGetbitsBase_reads 257 hd hov (by norm_num : 5 ≤ 24) (by omega) hw
  obtain ⟨d₂, hget₂, htook₂, hov₂, hrest₂⟩ :=
    tinfGetbitsBase_reads 1 htook₁.ready hov₁ (by norm_num : 5 ≤ 24) (by omega) hrest₁
  obtain ⟨d₃, hget₃, htook₃, hov₃, hrest₃⟩ :=
    tinfGetbitsBase_reads 4 htook₂.ready hov₂ (by norm_num : 4 ≤ 24) (by omega) hrest₂
  -- the code of the code lengths
  obtain ⟨zeros, order', first, d₄, hzeros, hloop, horder', horder8', hflen, htake, htook₄⟩ :=
    tinfReadClen_run htook₃.ready (by omega : 19 ≤ lengths.length) horder₁
  obtain ⟨heq, hov₄, hrest₄⟩ := htook₄.of_length hov₃ hrest₃
    (by rw [length_flatMap_bits, length_flatMap_bits, horder'])
  obtain rfl := flatMap_bits_inj horder' horder8' horder8 heq
  have hcl8 := codeLengths_lt (h := ⟨hlit, hdist, order', ts⟩) horder8'
  obtain ⟨-, clt, hclt, hclmax, hcldec⟩ := (tinfBuildTree_take (htake hlit hdist ts) (by norm_num)
    (by omega) (fun l hl => (hcl8 l hl).trans (by norm_num)) hlt).resolve_right
    fun hbad => hbad.1 hclusable
  have hempty : clt.maxSym ≠ -1 := hclmax ▸ (lastCode_ne _).mpr hclne
  -- the code lengths
  obtain ⟨lengths', d₅, hrun, hlsTake, h16, hlen', hready₅, hov₅, hrest₅, hout₅, hlimit₅⟩ :=
    tinfLengthsLoop_reads le_rfl (hcldec 18) ((hcldec 18).sound hempty)
      (by simp [Header.codeLengths]) htook₄.ready hov₄
      (by omega : hlit + hdist ≤ first.length) (by omega : _ < hlit + hdist + 1) (Nat.zero_le _)
      (by simp) hts hlengths htotal hrest₄
  have heob' : lengths'.getD 256 0 ≠ 0 := by
    rwa [← getD_of_take hlsTake (by omega)]
  -- the codes
  obtain ⟨-, -, lt', dt', hbuild, hldec, hddec⟩ := (tinfBuildTree_both (d := d₅) hlsTake (by omega)
    hlit₁ hdist₁ h16 (hcldec 0).symbols hdt).resolve_right
    fun hbad => hbad.1 ⟨hlitUsable, hdistUsable⟩
  refine ⟨lt', dt', d₅, ?_, hldec, hddec, ⟨?_, ?_⟩, hready₅, hov₅, hrest₅, ?_, ?_⟩
  · have h₁ : 257 + (hlit - 257) = hlit := by omega
    have h₂ : 1 + (hdist - 1) = hdist := by omega
    have h₃ : 4 + (order'.length - 4) = order'.length := by omega
    rw [h₁] at hget₁
    rw [h₂] at hget₂
    rw [h₃] at hget₃
    rw [tinfDecodeTrees, hget₁, ok_bind]
    dsimp only
    rw [hget₂, ok_bind]
    dsimp only
    rw [hget₃, ok_bind]
    dsimp only
    rw [if_neg (by omega), hzeros, ok_bind, hloop, ok_bind]
    dsimp only
    rw [hclt, ok_bind, if_neg hempty, hrun, ok_bind]
    dsimp only
    rw [tinfGet_of_lt 0 (by omega), ok_bind, if_neg heob', hbuild]
  · rw [List.length_take]
    omega
  · rwa [getD_of_take rfl (by omega)]
  · exact hout₅.trans (htook₄.out.trans (htook₃.out.trans (htook₂.out.trans htook₁.out)))
  · exact hlimit₅.trans (htook₄.limit.trans (htook₃.limit.trans (htook₂.limit.trans htook₁.limit)))

end MicroOS
