import MicroOS.Driver.Acpi

/-!
The search for the package `_S5_` in the DSDT, `driver/acpi/dsdt.c`.

* `memcmp`, `s5Search`, `s5Package`, `s5Types`: what `dsdt_init` does with the bytes of the table,
  with the offsets that are read; `dsdtInit`: `dsdt_init`, which stops at a byte in a page that is
  not mapped;
* `FirstS5`, `Encoded`: the first `_S5_` in the table, and the bytes around it;
* `S5Exact`: the search reads the table only, and takes what it finds from the first `_S5_`;
* `DsdtMapped`: the pages that are mapped for the table are enough;
* `dsdt_init_exact_iff`: the tables that are searched like that.

A byte of the table is given by its offset, and so are the bytes in front of it and behind it.
-/

namespace MicroOS

open ByteMem ByteImage Checked Logged

/-- `SLP_TYPa` and `SLP_TYPb`. -/
structure SlpTypes where
  slpTypa : ℕ
  slpTypb : ℕ
deriving DecidableEq

/-- `"_S5_"`. -/
def s5Name : List UInt8 := [0x5f, 0x53, 0x35, 0x5f]

/-- `memcmp` with a constant. -/
def memcmp (b : ℕ → UInt8) (p : ℕ) : List UInt8 → Logged ℤ
  | [] => pure 0
  | c :: s => do
      let d ← load b p
      if d ≠ c then pure (d.toNat - c.toNat : ℤ) else memcmp b (p + 1) s

/-- The loop of `dsdt_init`: `s5_addr`, and `dsdt_length` behind the loop. -/
def s5Search (b : ℕ → UInt8) : ℕ → ℕ → Logged (ℕ × ℕ)
  -- the test fails, and `dsdt_length--` wraps
  | 0, s5 => pure (s5, 2 ^ 32 - 1)
  | len + 1, s5 => do
      if (← memcmp b s5 s5Name) = 0 then pure (s5, len) else s5Search b len (s5 + 1)

/-- The test for the name in front of `_S5_`. -/
def s5Named (b : ℕ → UInt8) (s5 : ℕ) : Logged Bool := do
  if (← load b (s5 - 1)) = 0x08 then pure true
  else if (← load b (s5 - 2)) = 0x08 then return (← load b (s5 - 1)) = 0x5c
  else pure false

/-- The test for the package. -/
def s5Package (b : ℕ → UInt8) (s5 : ℕ) : Logged Bool := do
  if ← s5Named b s5 then return (← load b (s5 + 4)) = 0x12 else pure false

/-- `if (*s5_addr == 0x0A) s5_addr++`. -/
def skipPrefix (b : ℕ → UInt8) (s5 : ℕ) : Logged ℕ := do
  if (← load b s5) = 0x0a then pure (s5 + 1) else pure s5

/-- The elements of the package, as `uint16_t`. -/
def s5Types (b : ℕ → UInt8) (s5 : ℕ) : Logged SlpTypes := do
  let s5 := s5 + 5
  let s5 := s5 + (((← load b s5).toNat &&& 0xc0) >>> 6 + 2)
  let s5 ← skipPrefix b s5
  let slpTypa := (← load b s5).toNat <<< 10 % 2 ^ 16
  let s5 ← skipPrefix b (s5 + 1)
  let slpTypb := (← load b s5).toNat <<< 10 % 2 ^ 16
  return ⟨slpTypa, slpTypb⟩

/-- What `dsdt_init` does with the table. -/
def dsdtSearch (b : ℕ → UInt8) (dsdtLength : ℕ) (slp : SlpTypes) : Logged SlpTypes := do
  let (s5, dsdtLength) ← s5Search b dsdtLength 36
  if dsdtLength ≤ 0 then return slp
  else if ← s5Package b s5 then s5Types b s5
  else return slp

/-- `fadt->dsdt`. -/
def fadtDsdt (m : Mem) (fadt : ℕ) : ℕ := leValue (view m fadt) 40 4

/-- The pages that are mapped when the table is searched: its first one, and then one for each 4096
bytes of its length, counted from the first byte of the first page and not from the table. -/
def dsdtPages (pages : List ℕ) (dsdt dsdtLength : ℕ) : List ℕ :=
  pages ++ [alignPageDown dsdt] ++ (List.range (dsdtLength / 0x1000 + 1)).map fun i =>
    wrap32 (alignPageDown dsdt + i * 0x1000)

/-- `dsdt_init`: the types, with the pages that are mapped and the bytes that are read of the DSDT
behind its length; `mapped` are the pages that are mapped before. -/
def dsdtInit (m : Mem) (mapped : List ℕ) (xsdt rsdt fuel : ℕ) (slp : SlpTypes) :
    Except Halt (List ℕ × Logged SlpTypes) := do
  let (fadt, log) ← findSdt m mapped xsdt rsdt [0x46, 0x41, 0x43, 0x50] fuel
  if fadt = 0 then return (log.pages, pure slp)
  else if ¬InPages log.pages (fadt + 40) 4 then .error (.outOfBounds fadt)
  else
    let dsdt := fadtDsdt m fadt
    -- `dsdt_length` is read with the first page mapped only
    if ¬InPages (log.pages ++ [alignPageDown dsdt]) (dsdt + 4) 4 then .error (.outOfBounds dsdt)
    else
      let dsdtLength := sdtLength m dsdt
      let pages := dsdtPages log.pages dsdt dsdtLength
      let r ← (dsdtSearch (view m dsdt) dsdtLength slp).checked
        (fun i => InPages pages (dsdt + i) 1) .outOfBounds
      return (pages, r)

variable {b : ℕ → UInt8} {L o p n i : ℕ} {s : List UInt8} {slp : SlpTypes}

/-! ### The name -/

/-- **`memcmp`** is zero where the string is, and reads bytes of its length only. -/
lemma memcmp_spec (b : ℕ → UInt8) (p : ℕ) (s : List UInt8) :
    ((memcmp b p s).value = 0 ↔ Holds b p s) ∧
      (∀ i ∈ (memcmp b p s).reads, p ≤ i ∧ i < p + s.length) ∧
      (Holds b p s → ∀ i, p ≤ i → i < p + s.length → i ∈ (memcmp b p s).reads) ∧
      (s ≠ [] → p ∈ (memcmp b p s).reads) := by
  induction s generalizing p with
  | nil =>
    refine ⟨by simp [memcmp, holds_nil], by simp [memcmp], fun _ i h1 h2 => ?_, by simp⟩
    exact absurd h2 (by simpa using h1)
  | cons c s ih =>
    obtain ⟨hvalue, hreads, hall, -⟩ := ih (p + 1)
    rw [memcmp, value_bind, reads_bind, value_load, reads_load]
    by_cases hne : b p ≠ c
    · have hsub : ((b p).toNat : ℤ) - c.toNat ≠ 0 := fun h =>
        hne (UInt8.toNat_inj.mp (by omega))
      simp [hne, holds_cons, hsub]
    · rw [not_not] at hne
      rw [if_neg (not_not.mpr hne)]
      refine ⟨?_, fun i hi => ?_, fun h i h1 h2 => ?_, fun _ => ?_⟩
      · rw [hvalue, holds_cons, and_iff_right hne]
      · rw [List.length_cons]
        rcases List.mem_append.mp hi with hi | hi
        · obtain rfl := List.mem_singleton.mp hi
          omega
        · have := hreads i hi
          omega
      · rw [List.length_cons] at h2
        rcases h1.eq_or_lt with rfl | h1
        · exact List.mem_append_left _ (List.mem_singleton_self _)
        · exact List.mem_append_right _ (hall (holds_cons.mp h).2 i h1 (by omega))
      · exact List.mem_append_left _ (List.mem_singleton_self _)

/-- `_S5_` stands at an offset. -/
def S5At (b : ℕ → UInt8) (o : ℕ) : Prop := Holds b o s5Name

instance (b : ℕ → UInt8) (o : ℕ) : Decidable (S5At b o) := decidableHolds b o s5Name

/-- **The loop** stops at the first `_S5_` behind the header, and reads the bytes up to it, or goes
on for the length of the table. -/
lemma s5Search_spec (b : ℕ → UInt8) (n p : ℕ) :
    (∃ o, p ≤ o ∧ o < p + n ∧ S5At b o ∧ (∀ j, p ≤ j → j < o → ¬S5At b j) ∧
      (s5Search b n p).value = (o, p + n - 1 - o) ∧
      (∀ i ∈ (s5Search b n p).reads, i < o + 4) ∧ o + 3 ∈ (s5Search b n p).reads) ∨
    (∀ j, p ≤ j → j < p + n → ¬S5At b j) ∧
      ∀ j, p ≤ j → j < p + n → j ∈ (s5Search b n p).reads := by
  induction n generalizing p with
  | zero => exact .inr ⟨fun j h1 h2 => by omega, fun j h1 h2 => by omega⟩
  | succ n ih =>
    obtain ⟨hvalue, hreads, hall, hfirst⟩ := memcmp_spec b p s5Name
    have hlen : s5Name.length = 4 := rfl
    rw [hlen] at hreads hall
    rw [s5Search, value_bind, reads_bind]
    by_cases hstands : S5At b p
    · rw [if_pos (hvalue.mpr hstands), value_pure, reads_pure, List.append_nil]
      exact .inl ⟨p, le_rfl, by omega, hstands, fun j h1 h2 => by omega,
        by rw [Nat.add_sub_assoc (by omega)]; simp, fun i hi => (hreads i hi).2,
        hall hstands _ (by omega) (by omega)⟩
    · rw [if_neg fun h => hstands (hvalue.mp h)]
      rcases ih (p + 1) with ⟨o, h1, h2, ho, hbefore, hres, hread, hmem⟩ | ⟨hnone, hmem⟩
      · refine .inl ⟨o, by omega, by omega, ho, fun j hj1 hj2 => ?_, ?_, fun i hi => ?_,
          List.mem_append_right _ hmem⟩
        · rcases hj1.eq_or_lt with rfl | hj1
          · exact hstands
          · exact hbefore j hj1 hj2
        · rw [hres]
          congr 1
          omega
        · rcases List.mem_append.mp hi with hi | hi
          · have := (hreads i hi).2
            omega
          · exact hread i hi
      · refine .inr ⟨fun j hj1 hj2 => ?_, fun j hj1 hj2 => ?_⟩
        · rcases hj1.eq_or_lt with rfl | hj1
          · exact hstands
          · exact hnone j hj1 (by omega)
        · rcases hj1.eq_or_lt with rfl | hj1
          · exact List.mem_append_left _ (hfirst (by decide))
          · exact List.mem_append_right _ (hmem j hj1 (by omega))

/-! ### The package -/

/-- The byte in front of the name, or the two in front of it, say that it is a name. -/
def Named (b : ℕ → UInt8) (o : ℕ) : Prop := b (o - 1) = 0x08 ∨ b (o - 2) = 0x08 ∧ b (o - 1) = 0x5c

/-- **The bytes around the name** are those of a named package. -/
def Encoded (b : ℕ → UInt8) (o : ℕ) : Prop := Named b o ∧ b (o + 4) = 0x12

instance (b : ℕ → UInt8) (o : ℕ) : Decidable (Named b o) := inferInstanceAs (Decidable (_ ∨ _))
instance (b : ℕ → UInt8) (o : ℕ) : Decidable (Encoded b o) := inferInstanceAs (Decidable (_ ∧ _))

/-- An element of the package begins behind the prefix of a byte. -/
def elementAt (b : ℕ → UInt8) (p : ℕ) : ℕ := if b p = 0x0a then p + 1 else p

/-- The first element, behind the length of the package, and the second one. -/
def firstElement (b : ℕ → UInt8) (o : ℕ) : ℕ :=
  elementAt b (o + 5 + (((b (o + 5)).toNat &&& 0xc0) >>> 6 + 2))

/-- The element behind the first one of the package. -/
def secondElement (b : ℕ → UInt8) (o : ℕ) : ℕ := elementAt b (firstElement b o + 1)

/-- The types that the elements stand for. -/
def packageTypes (b : ℕ → UInt8) (o : ℕ) : SlpTypes :=
  ⟨(b (firstElement b o)).toNat <<< 10 % 2 ^ 16, (b (secondElement b o)).toNat <<< 10 % 2 ^ 16⟩

/-- An element is not in front of the place that it is looked for at. -/
lemma le_elementAt (b : ℕ → UInt8) (p : ℕ) : p ≤ elementAt b p := by
  rw [elementAt]
  split_ifs <;> omega

/-- The bytes in front of the name decide, and none behind its first one is read. -/
lemma s5Named_spec (b : ℕ → UInt8) (o : ℕ) : ((s5Named b o).value ↔ Named b o) ∧
    ∀ i ∈ (s5Named b o).reads, i ≤ o := by
  rw [s5Named, value_bind, reads_bind, value_load, reads_load, Named]
  by_cases h1 : b (o - 1) = 0x08
  · simp [h1]
  · rw [if_neg h1, value_bind, reads_bind, value_load, reads_load]
    by_cases h2 : b (o - 2) = 0x08
    · rw [if_pos h2, or_iff_right h1, and_iff_right h2]
      exact ⟨decide_eq_true_iff, by simp⟩
    · simp [h1, h2]

/-- **The test for the package** reads the byte behind the name when it has found a name. -/
lemma s5Package_spec (b : ℕ → UInt8) (o : ℕ) : ((s5Package b o).value ↔ Encoded b o) ∧
    ((s5Package b o).Within n ↔ (s5Named b o).Within n ∧ (Named b o → o + 4 < n)) := by
  obtain ⟨hvalue, -⟩ := s5Named_spec b o
  rw [s5Package, within_bind, value_bind]
  by_cases hnamed : Named b o
  · rw [if_pos (hvalue.mpr hnamed), Encoded, and_iff_right hnamed]
    refine ⟨decide_eq_true_iff, ?_⟩
    simp [hnamed, within_bind, within_load, within_pure]
  · rw [if_neg fun h => hnamed (hvalue.mp h)]
    simp [hnamed, Encoded, within_pure]

/-- An element is read at its prefix, and behind it if there is one. -/
lemma skipPrefix_spec (b : ℕ → UInt8) (p : ℕ) : (skipPrefix b p).value = elementAt b p ∧
    ((skipPrefix b p).Within n ↔ p < n) := by
  rw [skipPrefix, within_bind, value_bind, within_load, value_load, elementAt]
  split_ifs <;> simp [within_pure]

/-- **The package** is read up to its second element. -/
lemma s5Types_spec (b : ℕ → UInt8) (o : ℕ) : (s5Types b o).value = packageTypes b o ∧
    ((s5Types b o).Within n ↔ secondElement b o < n) := by
  have hfirst := fun p => (skipPrefix_spec (n := n) b p).1
  have hwithin := fun p => (skipPrefix_spec (n := n) b p).2
  have h1 := le_elementAt b (o + 5 + (((b (o + 5)).toNat &&& 0xc0) >>> 6 + 2))
  have h2 := le_elementAt b (firstElement b o + 1)
  rw [s5Types]
  simp only [value_bind, within_bind, value_load, within_load, hfirst, hwithin, value_pure,
    within_pure, and_true]
  rw [← firstElement] at h1 ⊢
  rw [← secondElement] at h2 ⊢
  refine ⟨rfl, ⟨fun h => h.2.2.2.2, fun h => ?_⟩⟩
  omega

/-! ### The table -/

/-- **The first `_S5_`** in a table, behind its header. -/
structure FirstS5 (b : ℕ → UInt8) (L o : ℕ) : Prop where
  ge : 36 ≤ o
  le : o + 4 ≤ L
  at_ : S5At b o
  first : ∀ j, 36 ≤ j → j < o → ¬S5At b j

/-- What is read around a name is in the table. -/
def PackageInside (b : ℕ → UInt8) (L o : ℕ) : Prop :=
  (Named b o → o + 4 < L) ∧ (Encoded b o → secondElement b o < L)

instance (b : ℕ → UInt8) (L o : ℕ) : Decidable (PackageInside b L o) :=
  inferInstanceAs (Decidable (_ ∧ _))

/-- **A search is exact**: it reads the table only, it takes the types from the package at the first
`_S5_` if the bytes around it are those of one, wherever in the table it is, and where there is none
the types stay. -/
structure S5Exact (b : ℕ → UInt8) (L : ℕ) (slp : SlpTypes) (r : Logged SlpTypes) : Prop where
  inside : r.Within L
  found : ∀ o, FirstS5 b L o → r.value = if Encoded b o then packageTypes b o else slp
  changed : r.value ≠ slp → ∃ o, FirstS5 b L o ∧ Encoded b o
  absent : (∀ o, 36 ≤ o → o + 4 ≤ L → ¬S5At b o) → r.value = slp

/-- There is one first `_S5_`. -/
lemma FirstS5.unique {o' : ℕ} (h : FirstS5 b L o) (h' : FirstS5 b L o') : o = o' := by
  rcases lt_trichotomy o o' with hlt | heq | hlt
  · exact absurd h.at_ (h'.first o h.ge hlt)
  · exact heq
  · exact absurd h'.at_ (h.first o' h'.ge hlt)

/-- The last byte that is read when `_S5_` is found. -/
def lastRead (b : ℕ → UInt8) (o : ℕ) : ℕ :=
  if Encoded b o then secondElement b o else if Named b o then o + 4 else o + 3

/-- The second element is behind the name. -/
lemma lt_secondElement (b : ℕ → UInt8) (o : ℕ) : o + 6 < secondElement b o := by
  have h1 : o + 5 + (((b (o + 5)).toNat &&& 0xc0) >>> 6 + 2) ≤ firstElement b o := le_elementAt ..
  have h2 : firstElement b o + 1 ≤ secondElement b o := le_elementAt ..
  omega

/-- What is read around a name is in the table when the last byte is. -/
lemma packageInside_iff (hle : o + 4 ≤ L) : PackageInside b L o ↔ lastRead b o < L := by
  have hsecond := lt_secondElement b o
  rw [PackageInside, lastRead]
  split_ifs with henc hnamed
  · simp only [henc.1, henc, true_imp_iff]
    omega
  · simp only [hnamed, henc, true_imp_iff, false_imp_iff, and_true]
  · exact ⟨fun _ => by omega, fun _ => ⟨fun h => absurd h hnamed, fun h => absurd h henc⟩⟩

/-- **What is done with a table** that has the name. -/
lemma dsdtSearch_of_first (h : FirstS5 b L o) (slp : SlpTypes) :
    (dsdtSearch b L slp).value = (if Encoded b o then packageTypes b o else slp) ∧
      ∀ n, (dsdtSearch b L slp).Within n ↔ lastRead b o < n := by
  have h36 := h.ge
  have hle := h.le
  rcases s5Search_spec b L 36 with ⟨o', h1, h2, ho', hbefore, hres, hread, hmem⟩ | ⟨hnone, -⟩
  swap
  · exact absurd h.at_ (hnone o h36 (by omega))
  obtain rfl : o = o' := by
    rcases lt_trichotomy o o' with hlt | heq | hlt
    · exact absurd h.at_ (hbefore o h36 hlt)
    · exact heq
    · exact absurd ho' (h.first o' h1 hlt)
  have hsearch : ∀ n, (s5Search b L 36).Within n ↔ o + 3 < n := fun n =>
    ⟨fun hw => hw _ hmem, fun hn i hi => (hread i hi).trans_le hn⟩
  have hnamed : ∀ n, o < n → (s5Named b o).Within n := fun n hn i hi =>
    ((s5Named_spec b o).2 i hi).trans_lt hn
  have hpackage := (s5Package_spec (n := 0) b o).1
  have hsecond := lt_secondElement b o
  have hnext : ¬o + 4 ≤ 36 := by omega
  constructor
  · rw [dsdtSearch, value_bind, hres]
    dsimp only
    rw [if_neg (by omega), value_bind]
    by_cases henc : Encoded b o
    · rw [if_pos (hpackage.mpr henc), if_pos henc, (s5Types_spec (n := 0) b o).1]
    · rw [if_neg fun h => henc (hpackage.mp h), if_neg henc, value_pure]
  · intro n
    rw [dsdtSearch, within_bind, hsearch, hres]
    dsimp only
    rw [if_neg (by omega), within_bind, (s5Package_spec b o).2, lastRead]
    by_cases henc : Encoded b o
    · rw [if_pos (hpackage.mpr henc), if_pos henc, (s5Types_spec b o).2]
      refine ⟨fun hw => hw.2.2, fun hn => ⟨by omega, ⟨hnamed n (by omega), fun _ => ?_⟩, hn⟩⟩
      omega
    · rw [if_neg fun h => henc (hpackage.mp h), if_neg henc]
      split_ifs with hname
      · exact ⟨fun hw => hw.2.1.2 hname, fun hn =>
          ⟨by omega, ⟨hnamed n (by omega), fun _ => hn⟩, within_pure _⟩⟩
      · exact ⟨fun hw => hw.1, fun hn =>
          ⟨hn, ⟨hnamed n (by omega), fun h => absurd h hname⟩, within_pure _⟩⟩

/-- **Which tables are searched exactly.** -/
lemma dsdtSearch_exact_iff (hL : 36 ≤ L) (slp : SlpTypes) :
    S5Exact b L slp (dsdtSearch b L slp) ↔ ∃ o, FirstS5 b L o ∧ PackageInside b L o := by
  constructor
  · intro h
    have hinside := h.inside
    rw [dsdtSearch, within_bind] at hinside
    rcases s5Search_spec b L 36 with ⟨o, h1, h2, ho, hbefore, -, -, hmem⟩ | ⟨-, hmem⟩
    · have hlt := hinside.1 _ hmem
      have hfirst : FirstS5 b L o := ⟨h1, by omega, ho, hbefore⟩
      refine ⟨o, hfirst, (packageInside_iff hfirst.le).mpr ?_⟩
      exact ((dsdtSearch_of_first hfirst slp).2 L).mp h.inside
    · -- the byte behind the table is read
      exact absurd (hinside.1 L (hmem L hL (by omega))) (lt_irrefl L)
  · rintro ⟨o, hfirst, hpackage⟩
    obtain ⟨hvalue, hreads⟩ := dsdtSearch_of_first hfirst slp
    refine ⟨(hreads L).mpr ((packageInside_iff hfirst.le).mp hpackage), fun o' ho' => ?_,
      fun hne => ⟨o, hfirst, ?_⟩, fun hnone => ?_⟩
    · rw [hvalue, hfirst.unique ho']
    · by_contra henc
      rw [hvalue, if_neg henc] at hne
      exact hne rfl
    · exact absurd hfirst.at_ (hnone o hfirst.ge hfirst.le)

/-! ### The pages -/

/-- The page of a byte of the table. -/
lemma alignPageDown_add (dsdt i : ℕ) : alignPageDown (wrap32 (dsdt + i)) =
    wrap32 (alignPageDown dsdt + (dsdt % 0x1000 + i) / 0x1000 * 0x1000) := by
  rw [alignPageDown, alignPageDown, wrap32, wrap32]
  omega

/-- The pages up to the length are mapped. -/
lemma inPages_of_le {pages : List ℕ} {dsdt : ℕ} (h : (dsdt % 0x1000 + i) / 0x1000 ≤ L / 0x1000) :
    InPages (dsdtPages pages dsdt L) (dsdt + i) 1 := by
  intro k hk
  obtain rfl : k = 0 := by omega
  rw [Nat.add_zero, alignPageDown_add]
  exact List.mem_append_right _
    (List.mem_map.mpr ⟨_, List.mem_range.mpr (Nat.lt_succ_of_le h), rfl⟩)

/-- Only one page of the table may be missing, and a byte in front of one that is mapped is mapped
too. -/
lemma InPages.of_le {pages : List ℕ} {dsdt j : ℕ} (hij : i ≤ j) (hj : j < L)
    (h : InPages (dsdtPages pages dsdt L) (dsdt + j) 1) :
    InPages (dsdtPages pages dsdt L) (dsdt + i) 1 := by
  by_cases hle : (dsdt % 0x1000 + i) / 0x1000 ≤ L / 0x1000
  · exact inPages_of_le hle
  · have hpage : (dsdt % 0x1000 + i) / 0x1000 = (dsdt % 0x1000 + j) / 0x1000 := by omega
    intro k hk
    have hmem := h k hk
    obtain rfl : k = 0 := by omega
    rwa [Nat.add_zero, alignPageDown_add, hpage, ← alignPageDown_add]

/-- **What `dsdt_init` reads is mapped**: the pointer in the FADT, the length of the DSDT and the
last byte that the search of a table with the name looks at. -/
structure DsdtMapped (m : Mem) (pages : List ℕ) (fadt o : ℕ) : Prop where
  pointer : InPages pages (fadt + 40) 4
  length : InPages (pages ++ [alignPageDown (fadtDsdt m fadt)]) (fadtDsdt m fadt + 4) 4
  last : InPages (dsdtPages pages (fadtDsdt m fadt) (sdtLength m (fadtDsdt m fadt)))
    (fadtDsdt m fadt + lastRead (view m (fadtDsdt m fadt)) o) 1

/-- `dsdt_init`, when it has found the FADT. -/
lemma dsdtInit_of_find {m : Mem} {mapped : List ℕ} {xsdt rsdt fuel fadt : ℕ} {log : SdtLog}
    (hfind : findSdt m mapped xsdt rsdt [0x46, 0x41, 0x43, 0x50] fuel = .ok (fadt, log))
    (hne : fadt ≠ 0) {pages : List ℕ} {r : Logged SlpTypes} (slp : SlpTypes) :
    dsdtInit m mapped xsdt rsdt fuel slp = .ok (pages, r) ↔
      InPages log.pages (fadt + 40) 4 ∧
      InPages (log.pages ++ [alignPageDown (fadtDsdt m fadt)]) (fadtDsdt m fadt + 4) 4 ∧
      pages = dsdtPages log.pages (fadtDsdt m fadt) (sdtLength m (fadtDsdt m fadt)) ∧
      r = dsdtSearch (view m (fadtDsdt m fadt)) (sdtLength m (fadtDsdt m fadt)) slp ∧
      ∀ i ∈ r.reads, InPages pages (fadtDsdt m fadt + i) 1 := by
  rw [dsdtInit, hfind, ok_bind]
  dsimp only
  rw [if_neg hne]
  by_cases hpointer : InPages log.pages (fadt + 40) 4
  swap
  · simp [hpointer]
  rw [if_neg (not_not.mpr hpointer), and_iff_right hpointer]
  by_cases hlength : InPages (log.pages ++ [alignPageDown (fadtDsdt m fadt)])
      (fadtDsdt m fadt + 4) 4
  swap
  · simp [hlength]
  rw [if_neg (not_not.mpr hlength), bind_eq_ok, and_iff_right hlength]
  constructor
  · rintro ⟨y, hchecked, hret⟩
    obtain ⟨hreads, rfl⟩ := checked_eq_ok.mp hchecked
    obtain ⟨rfl, rfl⟩ := Prod.mk.inj (Except.ok.inj hret)
    exact ⟨rfl, rfl, fun i hi => of_decide_eq_true (hreads i hi)⟩
  · rintro ⟨rfl, rfl, hreads⟩
    exact ⟨_, checked_eq_ok.mpr ⟨fun i hi => decide_eq_true (hreads i hi), rfl⟩, rfl⟩

/-- **`dsdt_init` searches a DSDT exactly** just where `_S5_` occurs in it, what is read around
the first one is in the table too, and all of this is in pages that are mapped. -/
theorem dsdt_init_exact_iff {m : Mem} {mapped : List ℕ} {xsdt rsdt fuel fadt : ℕ} {log : SdtLog}
    (hfind : findSdt m mapped xsdt rsdt [0x46, 0x41, 0x43, 0x50] fuel = .ok (fadt, log))
    (hne : fadt ≠ 0) (hL : 36 ≤ sdtLength m (fadtDsdt m fadt)) (slp : SlpTypes) :
    (∃ pages r, dsdtInit m mapped xsdt rsdt fuel slp = .ok (pages, r) ∧
      S5Exact (view m (fadtDsdt m fadt)) (sdtLength m (fadtDsdt m fadt)) slp r) ↔
    ∃ o, FirstS5 (view m (fadtDsdt m fadt)) (sdtLength m (fadtDsdt m fadt)) o ∧
      PackageInside (view m (fadtDsdt m fadt)) (sdtLength m (fadtDsdt m fadt)) o ∧
      DsdtMapped m log.pages fadt o := by
  constructor
  · rintro ⟨pages, r, hinit, hexact⟩
    obtain ⟨hpointer, hlength, rfl, rfl, hreads⟩ := (dsdtInit_of_find hfind hne slp).mp hinit
    obtain ⟨o, hfirst, hinside⟩ := (dsdtSearch_exact_iff hL slp).mp hexact
    have hlast := (mem_reads_of_within (dsdtSearch_of_first hfirst slp).2).1
    exact ⟨o, hfirst, hinside, hpointer, hlength, hreads _ hlast⟩
  · rintro ⟨o, hfirst, hinside, hmapped⟩
    have hle := (mem_reads_of_within (dsdtSearch_of_first hfirst slp).2).2
    refine ⟨_, _, (dsdtInit_of_find hfind hne slp).mpr ⟨hmapped.pointer, hmapped.length, rfl, rfl,
      fun i hi => ?_⟩, (dsdtSearch_exact_iff hL slp).mpr ⟨o, hfirst, hinside⟩⟩
    exact hmapped.last.of_le (hle i hi) ((packageInside_iff hfirst.le).mp hinside)

/-! ### Three tables -/

/-- An RSDT at `0x1000` with one entry, the FADT at `0x2000`, and its DSDT with a length and some
bytes behind the header. -/
def acpiTables (dsdt dsdtLength : ℕ) (aml : List UInt8) : Mem :=
  store (store (store (fun _ => 0) 0x1000
    ([0x52, 0x53, 0x44, 0x54] ++ leBytes 4 40 ++ List.replicate 28 0 ++ leBytes 4 0x2000)) 0x2000
    ([0x46, 0x41, 0x43, 0x50] ++ leBytes 4 44 ++ List.replicate 32 0 ++ leBytes 4 dsdt)) dsdt
    ([0x44, 0x53, 0x44, 0x54] ++ leBytes 4 dsdtLength ++ List.replicate 28 0 ++ aml)

/-- The table that the only entry of an RSDT points to is found. -/
lemma findSdt_single (m : Mem) (mapped : List ℕ) (rsdt header : ℕ) {signature : List UInt8}
    (hne : rsdt ≠ 0) (hlength : sdtLength m rsdt = 40) (hptr : rsdtPtr m rsdt 0 = header)
    (hsig : sdtSignature m header = signature) (hmapped : InPages mapped (rsdt + 4) 4)
    (hvisit : Visitable m mapped rsdt 4 (rsdtPtr m rsdt) 0) :
    findSdt m mapped 0 rsdt signature mapFuel =
      .ok (header, ⟨mapped ++ sdtPages m header, [] ++ [(rsdt, 0)]⟩) := by
  subst hptr
  obtain ⟨hentry, hmappable⟩ := hvisit
  rw [pagesBefore_zero] at hentry hmappable
  rw [findSdt_rsdt (n := 1) hne hlength, searchOne, if_neg (not_not.mpr hmapped), searchTables,
    if_neg (not_not.mpr hentry), mapSdt_eq (rsdtPtr_lt m rsdt 0) hmappable, ok_bind]
  dsimp only
  rw [if_pos hsig]
  rfl

/-- A DSDT with the name at its offset 37. -/
def s5Table : Mem :=
  acpiTables 0x3000 48 [0x08, 0x5f, 0x53, 0x35, 0x5f, 0x12, 0x06, 0x02, 0x0a, 0x05, 0x0a, 0x07]

/-- The package of this table is found. -/
theorem dsdt_init_exact_table : ∃ pages r,
    dsdtInit s5Table [0x1000] 0 0x1000 mapFuel ⟨0, 0⟩ = .ok (pages, r) ∧
      S5Exact (view s5Table 0x3000) 48 ⟨0, 0⟩ r := by
  have hfind := findSdt_single s5Table [0x1000] 0x1000 0x2000
    (by decide) (by decide) (by decide) rfl (by decide) (by decide)
  refine (dsdt_init_exact_iff hfind (by decide) (by decide) ⟨0, 0⟩).mpr
    ⟨37, ⟨by decide, by decide, by decide, fun j h1 h2 => ?_⟩, by decide, by decide, by decide, ?_⟩
  · obtain rfl : j = 36 := by omega
    decide
  · exact inPages_of_le (by decide)

/-- A DSDT without AML, and bytes behind it. -/
def emptyTable : Mem :=
  acpiTables 0x3000 36 (List.replicate 35 0 ++ [0x08, 0, 0, 0, 0, 0x12, 0, 0, 5, 5])

/-- A DSDT of 4608 bytes that begins in the middle of a page, with the name at its offset 4480. -/
def straddlingTable : Mem := store (acpiTables 0x3f00 0x1200 []) 0x5080 s5Name

/-- **A DSDT without `_S5_`**: the bytes that follow it are taken for a package; and **a name in the
last page of a DSDT**, which is not mapped: the search stops with a page fault. -/
theorem absent_s5_misread : (∃ pages r,
    dsdtInit emptyTable [0x1000] 0 0x1000 mapFuel ⟨0, 0⟩ = .ok (pages, r) ∧
      sdtLength emptyTable 0x3000 = 36 ∧ r.value = ⟨5120, 5120⟩ ∧
      ¬S5Exact (view emptyTable 0x3000) 36 ⟨0, 0⟩ r) ∧
    FirstS5 (view straddlingTable 0x3f00) 0x1200 0x1180 ∧
    ¬∃ pages r, dsdtInit straddlingTable [0x1000] 0 0x1000 mapFuel ⟨0, 0⟩ = .ok (pages, r) := by
  constructor
  · have hfind := findSdt_single emptyTable [0x1000] 0x1000 0x2000
      (by decide) (by decide) (by decide) rfl (by decide) (by decide)
    have hvalue : (dsdtSearch (view emptyTable 0x3000) 36 ⟨0, 0⟩).value = ⟨5120, 5120⟩ := by decide
    refine ⟨_, _, (dsdtInit_of_find hfind (by decide) ⟨0, 0⟩).mpr
      ⟨by decide, by decide, rfl, rfl, by decide⟩, by decide, hvalue, fun h => ?_⟩
    have hsame : (dsdtSearch (view emptyTable 0x3000) 36 ⟨0, 0⟩).value = ⟨0, 0⟩ :=
      h.absent fun o h1 h2 => by omega
    exact absurd (hvalue.symm.trans hsame) (by decide)
  · have hzero : ∀ j, 36 ≤ j → j < 0x1180 → view straddlingTable 0x3f00 j = 0 := by
      intro j h1 h2
      rw [view, wrap32_of_lt (by omega), straddlingTable, store_of_disjoint (.inl (by omega)),
        acpiTables, store_of_disjoint (.inr (by simp; omega)),
        store_of_disjoint (.inr (by simp; omega)), store_of_disjoint (.inr (by simp; omega))]
    have hfirst : FirstS5 (view straddlingTable 0x3f00) 0x1200 0x1180 := by
      refine ⟨by decide, by decide, by decide, fun j h1 h2 hat => ?_⟩
      exact absurd ((holds_cons.mp hat).1.symm.trans (hzero j h1 h2)) (by decide)
    have hfind := findSdt_single straddlingTable [0x1000] 0x1000 0x2000
      (by decide) (by decide) (by decide) rfl (by decide) (by decide)
    refine ⟨hfirst, ?_⟩
    rintro ⟨pages, r, hinit⟩
    obtain ⟨-, -, rfl, rfl, hreads⟩ := (dsdtInit_of_find hfind (by decide) ⟨0, 0⟩).mp hinit
    have hlast := (mem_reads_of_within (dsdtSearch_of_first hfirst ⟨0, 0⟩).2).1
    exact absurd (hreads _ hlast) (by decide)

end MicroOS
