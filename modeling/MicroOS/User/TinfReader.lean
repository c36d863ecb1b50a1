import MicroOS.User.Tinflate

/-!
The bit reader of the decompressor, `tinf_refill` and the `tinf_getbits` functions.

* `TinfData.pending`: the bits that are not read yet; `TinfData.Ready`: less than a byte of them is
  in `tag`.
* `TinfData.Took`: a part of the decompressor has taken bits, and has set `overflow` if and only if
  there were not as many; `Took.trans` puts two parts together, `Took.of_prefix` says that a part
  that could take the bits ahead has done so.
* `tinfGetbits_took`, `tinfGetbitsBase_took`: what the functions read.
-/

namespace MicroOS

open BitStream Checked

variable {d d' d'' : TinfData} {w w' rest : List Bool} {num base : ℕ}

namespace TinfData

/-- The bits that are not read yet. -/
def pending (d : TinfData) : List Bool := bits d.bitcount d.tag ++ stream d.source

/-- Less than a byte is in `tag`, and nothing else is; `overflow` says that the bytes have run out.
-/
structure Ready (d : TinfData) : Prop where
  tag : d.tag < 2 ^ d.bitcount
  bitcount : d.bitcount < 8
  ended : d.overflow = true → d.source = []

lemma Ready.withOut (h : d.Ready) (out : List UInt8) : Ready { d with out } :=
  ⟨h.tag, h.bitcount, h.ended⟩

/-- The bits `w` have been taken. -/
structure Took (d : TinfData) (w : List Bool) (d' : TinfData) : Prop where
  ready : d'.Ready
  out : d'.out = d.out
  limit : d'.limit = d.limit
  sticky : d.overflow = true → d'.overflow = true
  pending : d'.overflow = false → d.pending = w ++ d'.pending
  compare : d.overflow = false → w <+: d.pending ∨ d.pending <+: w
  enough : d.overflow = false → w.length ≤ d.pending.length → d'.overflow = false

/-- The output does not matter for the bits. -/
lemma Took.withOut (h : Took d w d') (out : List UInt8) :
    Took { d with out } w { d' with out } :=
  ⟨h.ready.withOut out, rfl, h.limit, h.sticky, h.pending, h.compare, h.enough⟩

/-- A reader that has not run out had not run out before. -/
lemma Took.overflow (h : Took d w d') (hd : d'.overflow = false) : d.overflow = false := by
  cases hov : d.overflow with
  | false => rfl
  | true => rw [h.sticky hov] at hd; exact hd

lemma Took.refl (h : d.Ready) : Took d [] d :=
  ⟨h, rfl, rfl, id, fun _ => rfl, fun _ => .inl List.nil_prefix, fun hd _ => hd⟩

/-- **Two parts, one after the other.** -/
lemma Took.trans (h : Took d w d') (h' : Took d' w' d'') : Took d (w ++ w') d'' where
  ready := h'.ready
  out := h'.out.trans h.out
  limit := h'.limit.trans h.limit
  sticky hd := h'.sticky (h.sticky hd)
  pending hd := by rw [h.pending (h'.overflow hd), h'.pending hd, List.append_assoc]
  compare hd := by
    cases hov : d'.overflow with
    | false =>
      rw [h.pending hov]
      exact (h'.compare hov).imp (List.prefix_append_right_inj w).mpr
        (List.prefix_append_right_inj w).mpr
    | true =>
      right
      rcases h.compare hd with hw | hw
      · rw [h.enough hd hw.length_le] at hov
        exact absurd hov (by decide)
      · exact hw.trans (List.prefix_append w w')
  enough hd hlen := by
    rw [List.length_append] at hlen
    have hov := h.enough hd (by omega)
    refine h'.enough hov ?_
    rw [h.pending hov, List.length_append] at hlen
    omega

/-- **What could be taken was taken**, where no word that a part takes begins with another one. -/
lemma Took.of_prefix (h : Took d w d') (hd : d.overflow = false) (hw : d.pending = w' ++ rest)
    (hfree : ∀ l, w <+: l → w' <+: l → w = w') :
    w = w' ∧ d'.overflow = false ∧ d'.pending = rest := by
  have hinit : w' <+: d.pending := ⟨rest, hw.symm⟩
  have heq : w = w' := by
    rcases h.compare hd with hle | hle
    · exact hfree _ hle hinit
    · exact hfree _ (List.prefix_refl w) (hinit.trans hle)
  subst heq
  have hov := h.enough hd hinit.length_le
  refine ⟨rfl, hov, ?_⟩
  have hpending := h.pending hov
  rw [hw] at hpending
  exact (List.append_cancel_left hpending).symm

/-- A part that takes as many bits as a word has, takes the word. -/
lemma Took.of_length (h : Took d w d') (hd : d.overflow = false) (hw : d.pending = w' ++ rest)
    (hlen : w.length = w'.length) : w = w' ∧ d'.overflow = false ∧ d'.pending = rest := by
  refine h.of_prefix hd hw fun l hl hl' => ?_
  obtain ⟨r, rfl⟩ := hl
  exact (List.append_inj hl'.choose_spec hlen.symm).1.symm

/-! ### `tinf_refill` -/

/-- Bits that `tag` holds, perhaps more than a byte of them. -/
structure Filled (num : ℕ) (d d' : TinfData) : Prop where
  tag : d'.tag < 2 ^ d'.bitcount
  num_le : num ≤ d'.bitcount
  lt : d'.bitcount < num + 8
  out : d'.out = d.out
  limit : d'.limit = d.limit
  sticky : d.overflow = true → d'.overflow = true
  ended : d'.overflow = true → d'.source = []
  pending : ∃ z, d'.pending = d.pending ++ z ∧ (d'.overflow = false → z = [])
  short : d.overflow = false → d'.overflow = true → d.pending.length < num

/-- A byte is read. -/
lemma refillByte_cons {b : UInt8} {source : List UInt8} (htag : d.tag < 2 ^ d.bitcount)
    (hcount : d.bitcount + 8 ≤ 32) (hsource : d.source = b :: source) :
    d.refillByte.tag < 2 ^ (d.bitcount + 8) ∧ d.refillByte.pending = d.pending := by
  have hbyte : b.toNat < 2 ^ 8 := b.toNat_lt
  have hpow : 2 ^ (d.bitcount + 8) = 2 ^ d.bitcount * 2 ^ 8 := Nat.pow_add 2 _ 8
  have hshift : b.toNat <<< d.bitcount = 2 ^ d.bitcount * b.toNat := by
    rw [Nat.shiftLeft_eq, Nat.mul_comm]
  have hlt : 2 ^ d.bitcount * b.toNat < 2 ^ 32 :=
    calc 2 ^ d.bitcount * b.toNat < 2 ^ d.bitcount * 2 ^ 8 :=
          Nat.mul_lt_mul_of_pos_left hbyte (Nat.two_pow_pos _)
      _ = 2 ^ (d.bitcount + 8) := hpow.symm
      _ ≤ 2 ^ 32 := Nat.pow_le_pow_right Nat.two_pos hcount
  have htag' : d.tag ||| (b.toNat <<< d.bitcount) % 2 ^ 32 = d.tag + 2 ^ d.bitcount * b.toNat := by
    rw [hshift, Nat.mod_eq_of_lt hlt, Nat.or_comm, ← Nat.two_pow_add_eq_or_of_lt htag,
      Nat.add_comm]
  have hsum : d.tag + 2 ^ d.bitcount * b.toNat < 2 ^ d.bitcount * 2 ^ 8 :=
    calc d.tag + 2 ^ d.bitcount * b.toNat < 2 ^ d.bitcount * (b.toNat + 1) := by linarith
      _ ≤ 2 ^ d.bitcount * 2 ^ 8 := Nat.mul_le_mul_left _ hbyte
  rw [refillByte, hsource]
  dsimp only
  rw [htag', TinfData.pending, TinfData.pending, hsource, hpow]
  dsimp only
  rw [bits_append htag, stream_cons, List.append_assoc]
  exact ⟨hsum, rfl⟩

/-- Nothing is left to read. -/
lemma refillByte_nil (htag : d.tag < 2 ^ d.bitcount) (hsource : d.source = []) :
    d.refillByte.tag < 2 ^ (d.bitcount + 8)
      ∧ d.refillByte.pending = d.pending ++ bits 8 0 ∧ d.pending.length = d.bitcount := by
  have hlt : d.tag < 2 ^ (d.bitcount + 8) :=
    htag.trans_le (Nat.pow_le_pow_right Nat.two_pos (Nat.le_add_right _ _))
  rw [refillByte, hsource]
  dsimp only
  rw [TinfData.pending, TinfData.pending, hsource]
  dsimp only
  rw [bits_add, Nat.div_eq_of_lt htag, stream_nil, List.append_nil, List.append_nil, length_bits]
  exact ⟨hlt, rfl, rfl⟩

/-- **The loop of `tinf_refill`.** -/
lemma refillLoop_filled {n : ℕ} (htag : d.tag < 2 ^ d.bitcount) (hlt : d.bitcount < num + 8)
    (hended : d.overflow = true → d.source = []) (hn : num ≤ d.bitcount + n)
    (hnum : num + 8 ≤ 32) : Filled num d (tinfRefillLoop num n d) := by
  induction n generalizing d with
  | zero =>
    exact ⟨htag, hn, hlt, rfl, rfl, id, hended, ⟨[], (List.append_nil _).symm, fun _ => rfl⟩,
      fun h h' => absurd (h.symm.trans h') (by decide)⟩
  | succ n ih =>
    rw [tinfRefillLoop]
    by_cases hcount : d.bitcount < num
    · rw [if_pos hcount]
      cases hsource : d.source with
      | nil =>
        -- no byte is left: zeros are taken, and the overflow is noted
        obtain ⟨htag', hpending, hlen⟩ := refillByte_nil htag hsource
        have hbyte : d.refillByte.bitcount = d.bitcount + 8 ∧ d.refillByte.overflow = true
            ∧ d.refillByte.source = [] ∧ d.refillByte.out = d.out
            ∧ d.refillByte.limit = d.limit := by
          rw [refillByte, hsource]; exact ⟨rfl, rfl, rfl, rfl, rfl⟩
        obtain ⟨hbc, hov, hend, hout, hlimit⟩ := hbyte
        have h := ih (d := d.refillByte) (by rwa [hbc]) (by omega) (fun _ => hend) (by omega)
        obtain ⟨z, hz, -⟩ := h.pending
        refine ⟨h.tag, h.num_le, h.lt, h.out.trans hout, h.limit.trans hlimit,
          fun _ => h.sticky hov, h.ended, ⟨bits 8 0 ++ z, ?_, fun hfalse => ?_⟩,
          fun _ _ => by omega⟩
        · rw [hz, hpending, List.append_assoc]
        · rw [h.sticky hov] at hfalse; exact absurd hfalse (by decide)
      | cons b source =>
        obtain ⟨htag', hpending⟩ := refillByte_cons htag (by omega) hsource
        have hbyte : d.refillByte.bitcount = d.bitcount + 8 ∧ d.refillByte.overflow = d.overflow
            ∧ d.refillByte.out = d.out ∧ d.refillByte.limit = d.limit := by
          rw [refillByte, hsource]; exact ⟨rfl, rfl, rfl, rfl⟩
        obtain ⟨hbc, hov, hout, hlimit⟩ := hbyte
        have hnot (h : d.refillByte.overflow = true) : d.refillByte.source = [] := by
          rw [hended (hov.symm.trans h)] at hsource
          exact nomatch hsource
        have h := ih (d := d.refillByte) (by rwa [hbc]) (by omega) hnot (by omega)
        obtain ⟨z, hz, hnil⟩ := h.pending
        refine ⟨h.tag, h.num_le, h.lt, h.out.trans hout, h.limit.trans hlimit,
          fun hd => h.sticky (hov.trans hd), h.ended, ⟨z, by rw [hz, hpending], hnil⟩,
          fun hd hd' => ?_⟩
        rw [← hpending]
        exact h.short (hov.trans hd) hd'
    · rw [if_neg hcount]
      exact ⟨htag, by omega, hlt, rfl, rfl, id, hended,
        ⟨[], (List.append_nil _).symm, fun _ => rfl⟩,
        fun h h' => absurd (h.symm.trans h') (by decide)⟩

end TinfData

open TinfData

@[simp] lemma tinfAssert_of {p : Prop} [Decidable p] (h : p) : tinfAssert p = .ok () := if_pos h

/-- **`tinf_getbits`.** -/
lemma tinfGetbits_took (hd : d.Ready) (hnum : num ≤ 24) :
    ∃ v d', tinfGetbits d num = .ok (v, d') ∧ v < 2 ^ num ∧ d.Took (bits num v) d' := by
  have hcount := hd.bitcount
  have hfill : TinfData.Filled num d (tinfRefillLoop num num d) :=
    refillLoop_filled hd.tag (by omega) hd.ended (by omega) (by omega)
  set e := tinfRefillLoop num num d with he
  have hle := hfill.num_le
  have hlt := hfill.lt
  have hsplit : e.pending = bits num (e.tag % 2 ^ num)
      ++ (bits (e.bitcount - num) (e.tag / 2 ^ num) ++ stream e.source) := by
    have hmod : bits num (e.tag % 2 ^ num) = bits num e.tag := by
      conv_rhs => rw [← Nat.mod_add_div e.tag (2 ^ num)]
      rw [bits_add_mul]
    rw [hmod, ← List.append_assoc, ← bits_add, Nat.add_sub_cancel' hle]
    rfl
  obtain ⟨z, hz, hnil⟩ := hfill.pending
  refine ⟨e.tag % 2 ^ num, { e with tag := e.tag >>> num, bitcount := e.bitcount - num }, ?_,
    Nat.mod_lt _ (Nat.two_pow_pos num), ?_⟩
  · have hrefill : tinfRefill d num = .ok e := by
      rw [tinfRefill, tinfAssert_of (by omega), ok_bind, ← he]
      dsimp only
      rw [tinfAssert_of (by omega), ok_bind]
      rfl
    rw [tinfGetbits, hrefill, ok_bind, tinfGetbitsNoRefill, tinfAssert_of hle, ok_bind,
      Nat.one_shiftLeft, Nat.and_two_pow_sub_one_eq_mod]
    rfl
  · have hpending : TinfData.pending { e with tag := e.tag >>> num, bitcount := e.bitcount - num }
        = bits (e.bitcount - num) (e.tag / 2 ^ num) ++ stream e.source := by
      rw [TinfData.pending, Nat.shiftRight_eq_div_pow]
    rw [← hpending] at hsplit
    refine ⟨⟨?_, by dsimp only; omega, hfill.ended⟩, hfill.out, hfill.limit, hfill.sticky,
      fun hov => ?_, fun hov => ?_, fun hov hlen => ?_⟩
    · dsimp only
      rw [Nat.shiftRight_eq_div_pow, Nat.div_lt_iff_lt_mul (Nat.two_pow_pos num), ← Nat.pow_add,
        Nat.sub_add_cancel hle]
      exact hfill.tag
    · rw [← hsplit, hz, hnil hov, List.append_nil]
    · rw [hz] at hsplit
      exact List.prefix_or_prefix_of_prefix ⟨_, hsplit.symm⟩ (List.prefix_append d.pending z)
    · rw [length_bits] at hlen
      by_contra hne
      have hshort := hfill.short hov (by simpa using hne)
      omega

/-- **`tinf_getbits_base`.** -/
lemma tinfGetbitsBase_took (base : ℕ) (hd : d.Ready) (hnum : num ≤ 24) :
    ∃ v d', tinfGetbitsBase d num base = .ok (base + v, d') ∧ v < 2 ^ num
      ∧ d.Took (bits num v) d' := by
  by_cases h0 : num = 0
  · subst h0
    exact ⟨0, d, rfl, Nat.one_pos, Took.refl hd⟩
  · obtain ⟨v, d', hget, hv, htook⟩ := tinfGetbits_took hd hnum
    exact ⟨v, d', by rw [tinfGetbitsBase, if_neg h0, hget]; rfl, hv, htook⟩

end MicroOS
