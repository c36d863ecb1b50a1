import MicroOS.Memory.VmmResize

/-!
The records of the MADT, `driver/acpi/madt.c`.

* `Madt`, `madtLapic`, `madtIoapic`, `madtLoop`, `parseMadt`: `parse_madt`, with the offsets of the
  table that are read;
* `MadtRecords`: a chain of records that are not empty, and whose fields are in the table;
* `Madt.Holds`: the arrays are those of some records; `MadtRecord`: what a table is made of;
* `parse_madt_total_iff`: the tables that are parsed.

The table is one that `find_SDT` has found, in memory that `vmm_alloc` does not hand out.
`curr_count` is an `int` that does not overflow.
-/

namespace MicroOS

open ByteMem ByteImage Checked Logged

/-- The arrays, with the kernel and the memory that they are in. -/
structure Madt where
  kernel : Kernel
  bytes : Mem
  lapicIds : ℕ
  lapicCount : ℕ
  lapicBaseAddr : ℕ
  ioapicIds : ℕ
  ioapicBaseAddr : ℕ
  ioapicCount : ℕ

/-- A number of `n` bytes is read. -/
def loadLe (b : ℕ → UInt8) (i : ℕ) : ℕ → Logged ℕ
  | 0 => pure 0
  | n + 1 => do
      let c ← load b i
      let v ← loadLe b (i + 1) n
      return c.toNat + 256 * v

/-- A record for a processor. -/
def madtLapic (b : ℕ → UInt8) (record : ℕ) (s : Madt) : Logged (Except Halt Madt) :=
  match resizeArray s.kernel s.bytes 1 s.lapicCount (s.lapicCount + 1) s.lapicIds with
  | .error e => pure (.error e)
  | .ok (kernel, bytes, lapicIds) => do
      let apicId ← load b (record + 3)
      return .ok { s with
        kernel, lapicIds
        bytes := writeByte bytes (lapicIds + s.lapicCount) apicId
        -- a `uint8_t`
        lapicCount := (s.lapicCount + 1) % 256 }

/-- `vmm_resize` for the two arrays of I/O APICs. -/
def resizeIoapics (s : Madt) : Except Halt Madt := do
  let (kernel, bytes, ioapicIds) ←
    resizeArray s.kernel s.bytes 1 s.ioapicCount (s.ioapicCount + 1) s.ioapicIds
  let (kernel, bytes, ioapicBaseAddr) ←
    resizeArray kernel bytes 4 s.ioapicCount (s.ioapicCount + 1) s.ioapicBaseAddr
  return { s with kernel, bytes, ioapicIds, ioapicBaseAddr }

/-- A record for an I/O APIC. -/
def madtIoapic (b : ℕ → UInt8) (record : ℕ) (s : Madt) : Logged (Except Halt Madt) :=
  match resizeIoapics s with
  | .error e => pure (.error e)
  | .ok s => do
      let ioApicId ← load b (record + 2)
      let ioApicAddress ← loadLe b (record + 4) 4
      return .ok { s with
        bytes := writeWord (writeByte s.bytes (s.ioapicIds + s.ioapicCount) ioApicId)
          (s.ioapicBaseAddr + 4 * s.ioapicCount) ioApicAddress
        ioapicCount := (s.ioapicCount + 1) % 256 }

/-- `switch (record->type)`. -/
def madtRecord (b : ℕ → UInt8) (type : UInt8) (record : ℕ) (s : Madt) :
    Logged (Except Halt Madt) :=
  if type = 0 then madtLapic b record s
  else if type = 1 then madtIoapic b record s
  else pure (.ok s)

/-- The loop of `parse_madt`, for a table of a length. -/
def madtLoop (b : ℕ → UInt8) (length : ℕ) : ℕ → ℕ → Madt → Logged (Except Halt Madt)
  | 0, _, _ => pure (.error .loops)
  | fuel + 1, currCount, s =>
    if currCount < sub32 length 44 then do
      let record := 44 + currCount
      let recordLength ← load b (record + 1)
      let type ← load b record
      match ← madtRecord b type record s with
      | .error e => pure (.error e)
      | .ok s => madtLoop b length fuel (currCount + recordLength.toNat) s
    else pure (.ok s)

/-- `parse_madt`. -/
def parseMadt (b : ℕ → UInt8) (fuel : ℕ) (s : Madt) : Logged (Except Halt Madt) := do
  let lapicBaseAddr ← loadLe b 36 4
  let length ← loadLe b 4 4
  madtLoop b length fuel 0 { s with lapicBaseAddr }

/-- The arrays before a table is parsed. -/
def Madt.start (k : Kernel) (bytes : Mem) : Madt := ⟨k, bytes, 0, 0, 0, 0, 0, 0⟩

/-- `madt->header.length`. -/
def madtLength (b : ℕ → UInt8) : ℕ := leValue b 4 4

variable {b : ℕ → UInt8} {L c i n fuel p : ℕ} {s s' : Madt} {lo : ℕ} {k k' : Kernel}

/-! ### Reads -/

/-- What a checked read of a number returns is the number. -/
@[simp] lemma value_loadLe (b : ℕ → UInt8) (i n : ℕ) : (loadLe b i n).value = leValue b i n := by
  induction n generalizing i with
  | zero => rfl
  | succ n ih => rw [loadLe, value_bind, value_bind, value_pure, ih, value_load, leValue]

/-- A checked read of a number stays in the table when its last byte does. -/
lemma within_loadLe (b : ℕ → UInt8) (i n : ℕ) : (loadLe b i (n + 1)).Within L ↔ i + n < L := by
  induction n generalizing i with
  | zero => simp [loadLe, within_bind, within_load, within_pure]
  | succ n ih =>
    rw [loadLe, within_bind, within_bind, within_load, ih]
    simp only [within_pure, and_true]
    omega

/-! ### Arrays -/

/-- There are pages for `n` arrays. -/
def Kernel.HasPages : ℕ → Kernel → Prop
  | 0, _ => True
  | n + 1, k => k.HasPage ∧ ∃ k' p, vmmAlloc k 1 = .ok (k', p) ∧ HasPages n k'

/-- **`vmm_resize` of an array of less than a page** allocates it once. -/
lemma resizeArray_small (k : Kernel) (bytes : Mem) {d o : ℕ} (hd : d ≤ 4) (ho : o < 256) (ptr : ℕ) :
    resizeArray k bytes d o (o + 1) ptr =
      if ptr = 0 then (do let (k, p) ← vmmAlloc k 1; return (k, bytes, p))
      else .ok (k, bytes, ptr) := by
  have hpages : ∀ x ≤ 256, d * x / 0x1000 + 1 = 1 := by
    intro x hx
    have : d * x ≤ 4 * 256 := Nat.mul_le_mul hd hx
    omega
  by_cases hptr : ptr = 0
  · rw [if_pos hptr, resizeArray, vmmResize, if_pos hptr, hpages (o + 1) (by omega)]
    cases vmmAlloc k 1 with
    | error e => rfl
    | ok x =>
      rw [ok_bind, ok_bind]
      dsimp only
      rw [if_neg fun h => h.1 hptr]
  · rw [if_neg hptr]
    exact resizeArray_same hptr (Nat.succ_ne_zero o)
      ((hpages (o + 1) (by omega)).trans (hpages o (by omega)).symm)

/-- An array is not allocated yet. -/
def pending (p : ℕ) : ℕ := if p = 0 then 1 else 0

/-- **An array has grown**: it is in a page, the one that it was in or one that was not in use. -/
structure Grown (lo : ℕ) (k : Kernel) (p : ℕ) (n : ℕ) (k' : Kernel) (p' : ℕ) : Prop where
  inv : KernelInv lo k'
  page : k'.Page p'
  used : ∀ f, k.pmm.Used f → k'.pmm.Used f
  kept : p ≠ 0 → p' = p
  fresh : p = 0 → ¬k.pmm.Used (p' / 0x1000)
  pages : k'.HasPages n

/-- **An array grows** by an element. -/
lemma resizeArray_grown (hi : KernelInv lo k) (hzero : k.pmm.Used 0) (hp : p = 0 ∨ k.Page p)
    (hpages : k.HasPages (pending p + n)) (bytes : Mem) {d o : ℕ} (hd : d ≤ 4) (ho : o < 256) :
    ∃ k' p', resizeArray k bytes d o (o + 1) p = .ok (k', bytes, p') ∧ Grown lo k p n k' p' := by
  rw [resizeArray_small k bytes hd ho]
  by_cases hnull : p = 0
  · rw [if_pos hnull]
    rw [pending, if_pos hnull, Nat.add_comm] at hpages
    obtain ⟨hroom, k', p', halloc, hrest⟩ := hpages
    obtain ⟨hinv, hpage, hfresh, hused⟩ := vmmAlloc_page hi hzero hroom halloc
    refine ⟨k', p', by rw [halloc]; rfl, hinv, hpage, hused, fun h => absurd hnull h,
      fun _ => hfresh, hrest⟩
  · rw [if_neg hnull]
    rw [pending, if_neg hnull, Nat.zero_add] at hpages
    exact ⟨k, p, rfl, hi, hp.resolve_left hnull, fun _ h => h, fun _ => rfl,
      fun h => absurd h hnull, hpages⟩

/-- **Between records**: each array has a page of its own or none, and there are pages for those
that have none. -/
structure Madt.Inv (lo : ℕ) (s : Madt) : Prop where
  inv : KernelInv lo s.kernel
  zero : s.kernel.pmm.Used 0
  lapic : s.lapicIds = 0 ∨ s.kernel.Page s.lapicIds
  ioapic : s.ioapicIds = 0 ∨ s.kernel.Page s.ioapicIds
  addr : s.ioapicBaseAddr = 0 ∨ s.kernel.Page s.ioapicBaseAddr
  lapic_ioapic : s.lapicIds = s.ioapicIds → s.lapicIds = 0
  lapic_addr : s.lapicIds = s.ioapicBaseAddr → s.lapicIds = 0
  ioapic_addr : s.ioapicIds = s.ioapicBaseAddr → s.ioapicIds = 0
  lapic_lt : s.lapicCount < 256
  ioapic_lt : s.ioapicCount < 256
  lapic_null : s.lapicIds = 0 → s.lapicCount = 0
  ioapic_null : s.ioapicIds = 0 ∨ s.ioapicBaseAddr = 0 → s.ioapicCount = 0
  pages : s.kernel.HasPages
    (pending s.lapicIds + (pending s.ioapicIds + pending s.ioapicBaseAddr))

/-- **The arrays are those of some records.** -/
structure Madt.Lists (s : Madt) (lapics : List UInt8) (ioapics : List (UInt8 × ℕ)) : Prop where
  lapicCount : s.lapicCount = lapics.length
  lapicIds : Holds s.bytes s.lapicIds lapics
  ioapicCount : s.ioapicCount = ioapics.length
  ioapicIds : Holds s.bytes s.ioapicIds (ioapics.map Prod.fst)
  ioapicBaseAddr : ∀ i x, ioapics[i]? = some x →
    readWord s.bytes (s.ioapicBaseAddr + 4 * i) = x.2

/-- A page that was not in use is not one that was. -/
lemma Grown.ne {p' q : ℕ} (h : Grown lo k p n k' p') (hp : p = q → p = 0)
    (hq : q = 0 ∨ k.Page q) : p' ≠ q := by
  rintro rfl
  by_cases hnull : p = 0
  · rcases hq with hq | hq
    · exact h.page.ne hq
    · exact h.fresh hnull hq.used
  · exact hnull (hp (h.kept hnull).symm)

lemma Grown.other {p' q : ℕ} (h : Grown lo k p n k' p') (hq : q = 0 ∨ k.Page q) :
    q = 0 ∨ k'.Page q := hq.imp_right fun hq => hq.of_used h.used

/-- The bytes of two pages are different ones. -/
lemma off_page {p q j : ℕ} (hp : k.Page p) (hne : p ≠ q) (hq : q = 0 ∨ k'.Page q)
    (hj : j < 0x1000) : q + j < p ∨ p + 0x1000 ≤ q + j := by
  have hp := hp.aligned
  have hq : 0x1000 ∣ q := by
    rcases hq with rfl | hq
    · exact dvd_zero _
    · exact hq.aligned
  omega

/-- An element is added to an array. -/
lemma Grown.holds {p' : ℕ} {m m' : Mem} {l : List UInt8} {x : UInt8} (h : Grown lo k p n k' p')
    (hl : Holds m p l) (hnull : p = 0 → l = []) (hx : m' (p' + l.length) = x)
    (hkept : ∀ i < l.length, m' (p' + i) = m (p' + i)) : Holds m' p' (l ++ [x]) := by
  refine holds_append.mpr ⟨?_, holds_cons.mpr ⟨hx, holds_nil⟩⟩
  by_cases hp : p = 0
  · rw [hnull hp]
    exact holds_nil
  · rw [← h.kept hp] at hl
    refine hl.congr fun a h1 h2 => ?_
    obtain ⟨i, rfl⟩ := Nat.exists_eq_add_of_le h1
    exact hkept i (by omega)

/-- **A record for a processor** adds its id. -/
lemma madtLapic_spec (h : s.Inv lo) (b : ℕ → UInt8) (record : ℕ) :
    ∃ s', (madtLapic b record s).value = .ok s' ∧ s'.Inv lo ∧
      ((madtLapic b record s).Within L ↔ record + 3 < L) ∧
      ∀ lapics ioapics, s.Lists lapics ioapics → lapics.length < 255 →
        s'.Lists (lapics ++ [b (record + 3)]) ioapics := by
  obtain ⟨k', p', hresize, hgrown⟩ :=
    resizeArray_grown h.inv h.zero h.lapic h.pages s.bytes (d := 1) (by norm_num) h.lapic_lt
  have hpage := hgrown.page
  rw [madtLapic, hresize]
  refine ⟨_, rfl, ?_, ?_, fun lapics ioapics hl hlt => ?_⟩
  · refine ⟨hgrown.inv, hgrown.used 0 h.zero, .inr hpage, hgrown.other h.ioapic,
      hgrown.other h.addr, ?_, ?_, h.ioapic_addr, Nat.mod_lt _ (by norm_num), h.ioapic_lt, ?_,
      h.ioapic_null, ?_⟩
    · exact fun heq => absurd heq (hgrown.ne h.lapic_ioapic h.ioapic)
    · exact fun heq => absurd heq (hgrown.ne h.lapic_addr h.addr)
    · exact fun hnull => absurd hnull hpage.ne
    · rw [pending, if_neg hpage.ne, Nat.zero_add]
      exact hgrown.pages
  · simp [within_bind, within_load, within_pure]
  · have hcount := hl.lapicCount
    have hcount' := hl.ioapicCount
    have hlt' := h.ioapic_lt
    have hioapic := hgrown.ne h.lapic_ioapic h.ioapic
    have haddr := hgrown.ne h.lapic_addr h.addr
    refine ⟨?_, ?_, hl.ioapicCount, hl.ioapicIds.congr fun a h1 h2 => ?_, fun i x hx => ?_⟩
    · dsimp only
      rw [hcount, List.length_append, List.length_singleton, Nat.mod_eq_of_lt (by omega)]
    · refine hgrown.holds hl.lapicIds (fun hnull => ?_) ?_ fun i hi => ?_
      · exact List.length_eq_zero_iff.mp (hcount.symm.trans (h.lapic_null hnull))
      · rw [← hcount]
        exact writeByte_self ..
      · exact writeByte_of_ne _ _ (by omega)
    · obtain ⟨i, rfl⟩ := Nat.exists_eq_add_of_le h1
      rw [List.length_map] at h2
      have hoff := off_page hpage hioapic h.ioapic (show i < 0x1000 by omega)
      exact writeByte_of_ne _ _ (by omega)
    · obtain ⟨hi, -⟩ := List.getElem?_eq_some_iff.mp hx
      rw [← hl.ioapicBaseAddr i x hx]
      refine readWord_eq fun j hj => writeByte_of_ne _ _ ?_
      have hoff := off_page hpage haddr h.addr (show 4 * i + j < 0x1000 by omega)
      dsimp only
      omega

/-- The arrays of I/O APICs grow. -/
lemma resizeIoapics_spec (h : s.Inv lo) : ∃ k₁ k₂ p₁ p₂, resizeIoapics s =
      .ok { s with kernel := k₂, ioapicIds := p₁, ioapicBaseAddr := p₂ } ∧
    Grown lo s.kernel s.ioapicIds (pending s.ioapicBaseAddr + pending s.lapicIds) k₁ p₁ ∧
    Grown lo k₁ s.ioapicBaseAddr (pending s.lapicIds) k₂ p₂ := by
  have hpages := h.pages
  rw [Nat.add_comm, Nat.add_assoc] at hpages
  obtain ⟨k₁, p₁, hresize₁, hgrown₁⟩ :=
    resizeArray_grown h.inv h.zero h.ioapic hpages s.bytes (d := 1) (by norm_num) h.ioapic_lt
  obtain ⟨k₂, p₂, hresize₂, hgrown₂⟩ := resizeArray_grown hgrown₁.inv (hgrown₁.used 0 h.zero)
    (hgrown₁.other h.addr) hgrown₁.pages s.bytes (d := 4) le_rfl h.ioapic_lt
  refine ⟨k₁, k₂, p₁, p₂, ?_, hgrown₁, hgrown₂⟩
  rw [resizeIoapics, hresize₁, ok_bind]
  dsimp only
  rw [hresize₂]
  rfl

/-- **A record for an I/O APIC** adds its id and its address. -/
lemma madtIoapic_spec (h : s.Inv lo) (b : ℕ → UInt8) (record : ℕ) :
    ∃ s', (madtIoapic b record s).value = .ok s' ∧ s'.Inv lo ∧
      ((madtIoapic b record s).Within L ↔ record + 7 < L) ∧
      ∀ lapics ioapics, s.Lists lapics ioapics → ioapics.length < 255 →
        s'.Lists lapics (ioapics ++ [(b (record + 2), leValue b (record + 4) 4)]) := by
  obtain ⟨k₁, k₂, p₁, p₂, hresize, hg₁, hg₂⟩ := resizeIoapics_spec h
  have hpage₁ : k₂.Page p₁ := hg₁.page.of_used hg₂.used
  have hpage₂ := hg₂.page
  have hlapic₁ : p₁ ≠ s.lapicIds := hg₁.ne (fun heq => heq ▸ h.lapic_ioapic heq.symm) h.lapic
  have haddr₁ : p₁ ≠ s.ioapicBaseAddr := hg₁.ne h.ioapic_addr h.addr
  have hlapic₂ : p₂ ≠ s.lapicIds :=
    hg₂.ne (fun heq => heq ▸ h.lapic_addr heq.symm) (hg₁.other h.lapic)
  have hids₂ : p₂ ≠ p₁ := hg₂.ne (fun heq => absurd heq.symm haddr₁) (.inr hg₁.page)
  rw [madtIoapic, hresize]
  refine ⟨_, rfl, ?_, ?_, fun lapics ioapics hl hlt => ?_⟩
  · -- the invariant: the pages of the three lists stay apart
    refine ⟨hg₂.inv, hg₂.used 0 (hg₁.used 0 h.zero), hg₂.other (hg₁.other h.lapic), .inr hpage₁,
      .inr hpage₂, fun heq => absurd heq.symm hlapic₁, fun heq => absurd heq.symm hlapic₂,
      fun heq => absurd heq.symm hids₂, h.lapic_lt, Nat.mod_lt _ (by norm_num), h.lapic_null,
      fun hnull => hnull.elim (absurd · hpage₁.ne) (absurd · hpage₂.ne), ?_⟩
    rw [pending, pending, pending, if_neg hpage₁.ne, if_neg hpage₂.ne, Nat.add_zero]
    exact hg₂.pages
  · simp only [within_bind, within_load, within_loadLe, within_pure, and_true]
    omega
  · have hcount := hl.ioapicCount
    have hcount' := hl.lapicCount
    have hlt' := h.lapic_lt
    simp only [value_load, value_loadLe]
    refine ⟨hl.lapicCount, hl.lapicIds.congr fun a h1 h2 => ?_, ?_, ?_, fun i x hx => ?_⟩
    · -- the list of processors lies in another page than the two writes
      obtain ⟨i, rfl⟩ := Nat.exists_eq_add_of_le h1
      have hoff₁ := off_page hpage₁ hlapic₁ h.lapic (show i < 0x1000 by omega)
      have hoff₂ := off_page hpage₂ hlapic₂ h.lapic (show i < 0x1000 by omega)
      exact (writeWord_of_disjoint _ _ (by omega)).trans (writeByte_of_ne _ _ (by omega))
    · dsimp only
      rw [hcount, List.length_append, List.length_singleton, Nat.mod_eq_of_lt (by omega)]
    · have hids : ∀ i < 256, p₁ + i < p₂ ∨ p₂ + 0x1000 ≤ p₁ + i := fun i hi =>
        off_page hpage₂ hids₂ (.inr hpage₁) (by omega)
      rw [List.map_append, List.map_singleton]
      refine hg₁.holds hl.ioapicIds (fun hnull => ?_) ?_ fun i hi => ?_
      · have hzero := hcount.symm.trans (h.ioapic_null (.inl hnull))
        rw [List.length_eq_zero_iff.mp hzero, List.map_nil]
      · have hoff := hids s.ioapicCount h.ioapic_lt
        rw [List.length_map, ← hcount]
        exact (writeWord_of_disjoint _ _ (by omega)).trans (writeByte_self ..)
      · rw [List.length_map] at hi
        have hoff := hids i (by omega)
        exact (writeWord_of_disjoint _ _ (by omega)).trans (writeByte_of_ne _ _ (by omega))
    · dsimp only
      -- an address of before keeps its word, and the last one is the new word
      rcases Nat.lt_or_ge i ioapics.length with hi | hi
      · rw [List.getElem?_append_left hi] at hx
        have hkept : p₂ = s.ioapicBaseAddr := hg₂.kept fun hnull => by
          have hzero := h.ioapic_null (.inr hnull)
          omega
        rw [← hl.ioapicBaseAddr i x hx, hkept, readWord_writeWord_of_disjoint _ _ (by omega)]
        refine readWord_eq fun j hj => writeByte_of_ne _ _ ?_
        have hoff := off_page hpage₁ haddr₁ h.addr (show 4 * i + j < 0x1000 by omega)
        omega
      · have hlast : i = ioapics.length := by
          obtain ⟨hi', -⟩ := List.getElem?_eq_some_iff.mp hx
          rw [List.length_append, List.length_singleton] at hi'
          omega
        rw [List.getElem?_append_right hi, hlast, Nat.sub_self] at hx
        obtain rfl := Option.some.inj hx
        rw [hlast, ← hcount, readWord_writeWord]
        exact wrap32_of_lt (leValue_lt b (record + 4) 4)

/-! ### The loop -/

/-- The bytes of a record that are read. -/
def recordReads (type : UInt8) : ℕ := if type = 0 then 4 else if type = 1 then 8 else 2

/-- The type and the length of a record are always read. -/
lemma two_le_recordReads (type : UInt8) : 2 ≤ recordReads type := by
  rw [recordReads]
  split_ifs <;> norm_num

/-- **A chain of records** up to the end of the table: no length is zero, and what is read of a
record is in the table. -/
inductive MadtRecords (b : ℕ → UInt8) (L : ℕ) : ℕ → Prop where
  | done {c : ℕ} (end_ : L ≤ 44 + c) : MadtRecords b L c
  | record {c : ℕ} (lt : 44 + c < L) (length : b (44 + c + 1) ≠ 0)
      (inside : 44 + c + recordReads (b (44 + c)) ≤ L)
      (rest : MadtRecords b L (c + (b (44 + c + 1)).toNat)) : MadtRecords b L c

/-- What a record adds to the arrays. -/
def lapicOf (b : ℕ → UInt8) (r : ℕ) : List UInt8 := if b r = 0 then [b (r + 3)] else []

/-- The entry that a record of an I/O APIC makes. -/
def ioapicOf (b : ℕ → UInt8) (r : ℕ) : List (UInt8 × ℕ) :=
  if b r = 1 then [(b (r + 2), leValue b (r + 4) 4)] else []

/-- **A record** of any type. -/
lemma madtRecord_spec (h : s.Inv lo) (b : ℕ → UInt8) (r : ℕ) (hr : r + 1 < L) :
    ∃ s', (madtRecord b (b r) r s).value = .ok s' ∧ s'.Inv lo ∧
      ((madtRecord b (b r) r s).Within L ↔ r + recordReads (b r) ≤ L) ∧
      ∀ lapics ioapics, s.Lists lapics ioapics → (lapics ++ lapicOf b r).length < 256 →
        (ioapics ++ ioapicOf b r).length < 256 →
        s'.Lists (lapics ++ lapicOf b r) (ioapics ++ ioapicOf b r) := by
  rw [madtRecord, recordReads, lapicOf, ioapicOf]
  split_ifs with h0 h1 h1
  · exact absurd (h0.symm.trans h1) (by decide)
  · obtain ⟨s', hs', hinv, hreads, hlists⟩ := madtLapic_spec h b r
    refine ⟨s', hs', hinv, hreads.trans (by omega), fun lapics ioapics hl hlt _ => ?_⟩
    rw [List.append_nil]
    rw [List.length_append, List.length_singleton] at hlt
    exact hlists lapics ioapics hl (by omega)
  · obtain ⟨s', hs', hinv, hreads, hlists⟩ := madtIoapic_spec h b r
    refine ⟨s', hs', hinv, hreads.trans (by omega), fun lapics ioapics hl _ hlt => ?_⟩
    rw [List.append_nil]
    rw [List.length_append, List.length_singleton] at hlt
    exact hlists lapics ioapics hl (by omega)
  · refine ⟨s, rfl, h, ⟨fun _ => by omega, fun _ => within_pure _⟩, fun lapics ioapics hl _ _ => ?_⟩
    rw [List.append_nil, List.append_nil]
    exact hl

/-- One turn of the loop. -/
lemma madtLoop_succ (h44 : 44 ≤ L) (hL : L < 2 ^ 32) (hc : 44 + c < L) (fuel : ℕ)
    (hs : (madtRecord b (b (44 + c)) (44 + c) s).value = .ok s') :
    (madtLoop b L (fuel + 1) c s).value =
        (madtLoop b L fuel (c + (b (44 + c + 1)).toNat) s').value ∧
      ((madtLoop b L (fuel + 1) c s).Within L ↔ 44 + c + 1 < L ∧
        (madtRecord b (b (44 + c)) (44 + c) s).Within L ∧
        (madtLoop b L fuel (c + (b (44 + c + 1)).toNat) s').Within L) := by
  rw [madtLoop, if_pos (by rw [sub32_of_le hL h44]; omega)]
  dsimp only
  rw [value_bind, value_bind, value_bind, within_bind, within_bind, within_bind, within_load,
    within_load, value_load, value_load, hs]
  refine ⟨rfl, ?_⟩
  rw [and_iff_right hc]

lemma madtLoop_done (h44 : 44 ≤ L) (hL : L < 2 ^ 32) (hc : L ≤ 44 + c) :
    madtLoop b L (fuel + 1) c s = pure (.ok s) := by
  rw [madtLoop, if_neg (by rw [sub32_of_le hL h44]; omega)]

/-- **The loop follows a chain** to its end. -/
lemma madtLoop_of_records (h44 : 44 ≤ L) (hL : L < 2 ^ 32) (hr : MadtRecords b L c)
    (h : s.Inv lo) :
    ∃ fuel s', (madtLoop b L fuel c s).value = .ok s' ∧ (madtLoop b L fuel c s).Within L := by
  induction hr generalizing s with
  | done end_ =>
    refine ⟨1, s, ?_⟩
    rw [madtLoop_done h44 hL end_]
    exact ⟨rfl, within_pure _⟩
  | @record c lt length inside rest ih =>
    have htwo := two_le_recordReads (b (44 + c))
    obtain ⟨s₁, hs₁, hinv, hwithin, -⟩ :=
      madtRecord_spec h b (44 + c) (show 44 + c + 1 < L by omega)
    obtain ⟨fuel, s', hs', hrest⟩ := ih hinv
    obtain ⟨hvalue, hturn⟩ := madtLoop_succ h44 hL lt fuel hs₁
    exact ⟨fuel + 1, s', hvalue.trans hs', hturn.mpr ⟨by omega, hwithin.mpr inside, hrest⟩⟩

/-- **A loop that ends in the table** has followed a chain. -/
lemma records_of_madtLoop (h44 : 44 ≤ L) (hL : L < 2 ^ 32) (h : s.Inv lo)
    (hs : (madtLoop b L fuel c s).value = .ok s') (hwithin : (madtLoop b L fuel c s).Within L) :
    MadtRecords b L c := by
  induction fuel generalizing c s with
  | zero => cases hs
  | succ fuel ih =>
    by_cases hc : L ≤ 44 + c
    · exact .done hc
    · have hlt := not_le.mp hc
      have hread : 44 + c + 1 < L := by
        have hfirst := hwithin
        rw [madtLoop, if_pos (by rw [sub32_of_le hL h44]; omega), within_bind, within_load]
          at hfirst
        exact hfirst.1
      obtain ⟨s₁, hs₁, hinv, hrecord, -⟩ := madtRecord_spec h b (44 + c) hread
      obtain ⟨hvalue, hturn⟩ := madtLoop_succ h44 hL hlt fuel hs₁
      obtain ⟨-, hinside, hrest⟩ := hturn.mp hwithin
      have hchain := ih hinv (hvalue.symm.trans hs) hrest
      refine .record hlt (fun hzero => ?_) (hrecord.mp hinside) hchain
      -- an empty record would be followed by itself
      rw [hzero] at hchain
      cases hchain with
      | done end_ => exact hc end_
      | record _ length _ _ => exact length hzero

/-! ### Tables -/

/-- A well-formed record. -/
inductive MadtRecord where
  | lapic (processorId apicId : UInt8) (flags : ℕ)
  | ioapic (ioApicId reserved : UInt8) (address globalSystemInterruptBase : ℕ)
      (lt : address < 2 ^ 32)
  | other (type : UInt8) (data : List UInt8) (ne_lapic : type ≠ 0) (ne_ioapic : type ≠ 1)
      (short : data.length + 2 < 2 ^ 8)

namespace MadtRecord

/-- Its bytes, with its length. -/
def bytes : MadtRecord → List UInt8
  | lapic processorId apicId flags => [0, 8, processorId, apicId] ++ leBytes 4 flags
  | ioapic ioApicId reserved address base _ =>
    [1, 12, ioApicId, reserved] ++ (leBytes 4 address ++ leBytes 4 base)
  | other type data _ _ _ => [type, UInt8.ofNat (data.length + 2)] ++ data

/-- The processor that it is for. -/
def lapics : MadtRecord → List UInt8
  | lapic _ apicId _ => [apicId]
  | _ => []

/-- The I/O APIC that it is for. -/
def ioapics : MadtRecord → List (UInt8 × ℕ)
  | ioapic ioApicId _ address _ _ => [(ioApicId, address)]
  | _ => []

/-- **What is read of a record.** -/
lemma read {r : ℕ} (record : MadtRecord) (h : Holds b r record.bytes) :
    (b (r + 1)).toNat = record.bytes.length ∧ recordReads (b r) ≤ record.bytes.length ∧
      lapicOf b r = record.lapics ∧ ioapicOf b r = record.ioapics := by
  cases record with
  | lapic processorId apicId flags =>
    rw [bytes, holds_append] at h
    simp only [holds_cons, Nat.add_assoc, Nat.reduceAdd] at h
    obtain ⟨⟨h0, h1, h2, h3, -⟩, -⟩ := h
    simp [h0, h1, h3, bytes, recordReads, lapicOf, ioapicOf, lapics, ioapics]
  | ioapic ioApicId reserved address base lt =>
    rw [bytes, holds_append, holds_append] at h
    simp only [holds_cons, Nat.add_assoc, Nat.reduceAdd] at h
    obtain ⟨⟨h0, h1, h2, h3, -⟩, haddr, -⟩ := h
    have hvalue : leValue b (r + 4) 4 = address := haddr.leValue lt
    simp [h0, h1, h2, hvalue, bytes, recordReads, lapicOf, ioapicOf, lapics, ioapics]
  | other type data ne_lapic ne_ioapic short =>
    rw [bytes, holds_append] at h
    simp only [holds_cons] at h
    obtain ⟨⟨h0, h1, -⟩, -⟩ := h
    have hlength : (b (r + 1)).toNat = data.length + 2 := by
      rw [h1, UInt8.toNat_ofNat', Nat.mod_eq_of_lt short]
    simp [h0, hlength, bytes, recordReads, lapicOf, ioapicOf, lapics, ioapics, ne_lapic,
      ne_ioapic]

end MadtRecord

/-- **A table of well-formed records** fills the arrays. -/
lemma madtLoop_of_table (h44 : 44 ≤ L) (hL : L < 2 ^ 32) {records : List MadtRecord}
    (hb : Holds b (44 + c) (records.flatMap MadtRecord.bytes))
    (hend : 44 + c + (records.flatMap MadtRecord.bytes).length = L) (h : s.Inv lo)
    {lapics : List UInt8} {ioapics : List (UInt8 × ℕ)} (hl : s.Lists lapics ioapics)
    (hlapics : (lapics ++ records.flatMap MadtRecord.lapics).length < 256)
    (hioapics : (ioapics ++ records.flatMap MadtRecord.ioapics).length < 256) :
    ∃ fuel s', (madtLoop b L fuel c s).value = .ok s' ∧
      s'.Lists (lapics ++ records.flatMap MadtRecord.lapics)
        (ioapics ++ records.flatMap MadtRecord.ioapics) := by
  induction records generalizing c s lapics ioapics with
  | nil =>
    refine ⟨1, s, ?_, ?_⟩
    · rw [madtLoop_done h44 hL (by simpa using hend.ge), value_pure]
    · simpa using hl
  | cons record records ih =>
    simp only [List.flatMap_cons] at hb hend hlapics hioapics ⊢
    obtain ⟨hrecord, hb⟩ := holds_append.mp hb
    obtain ⟨hlength, hreads, hlap, hio⟩ := record.read hrecord
    have htwo := two_le_recordReads (b (44 + c))
    rw [List.length_append] at hend
    rw [← List.append_assoc] at hlapics hioapics ⊢
    rw [← List.append_assoc]
    rw [List.length_append] at hlapics hioapics
    obtain ⟨s₁, hs₁, hinv, -, hlists⟩ :=
      madtRecord_spec h b (44 + c) (show 44 + c + 1 < L by omega)
    rw [hlap, hio] at hlists
    obtain ⟨fuel, s', hs', hfinal⟩ := ih (c := c + record.bytes.length) (by rwa [← Nat.add_assoc])
      (by omega) hinv (hlists lapics ioapics hl (by omega) (by omega))
      (by rw [List.length_append]; omega) (by rw [List.length_append]; omega)
    obtain ⟨hvalue, -⟩ := madtLoop_succ h44 hL (show 44 + c < L by omega) fuel hs₁
    exact ⟨fuel + 1, s', by rw [hvalue, hlength]; exact hs', hfinal⟩

/-- **A table is parsed**: the loop ends and reads the table only, and the arrays are those of its
records, if it consists of well-formed ones, less than 256 of each kind. -/
structure MadtParsed (b : ℕ → UInt8) (s : Madt) : Prop where
  total : ∃ fuel s', (parseMadt b fuel s).value = .ok s' ∧
    (parseMadt b fuel s).Within (madtLength b)
  complete : ∀ records : List MadtRecord, Holds b 44 (records.flatMap MadtRecord.bytes) →
    44 + (records.flatMap MadtRecord.bytes).length = madtLength b →
    (records.flatMap MadtRecord.lapics).length < 256 →
    (records.flatMap MadtRecord.ioapics).length < 256 →
    ∃ fuel s', (parseMadt b fuel s).value = .ok s' ∧
      s'.Lists (records.flatMap MadtRecord.lapics) (records.flatMap MadtRecord.ioapics)

lemma Madt.start_inv (hi : KernelInv lo k) (hzero : k.pmm.Used 0) (hpages : k.HasPages 3)
    (bytes : Mem) (lapicBaseAddr : ℕ) : Madt.Inv lo { Madt.start k bytes with lapicBaseAddr } :=
  ⟨hi, hzero, .inl rfl, .inl rfl, .inl rfl, fun _ => rfl, fun _ => rfl, fun _ => rfl,
    Nat.succ_pos _, Nat.succ_pos _, fun _ => rfl, fun _ => rfl, hpages⟩

/-- **`parse_madt` parses a table** just where its records are a chain: none is empty, and what is
read of each is in the table. -/
theorem parse_madt_total_iff (hi : KernelInv lo k) (hzero : k.pmm.Used 0) (hpages : k.HasPages 3)
    (bytes : Mem) (b : ℕ → UInt8) (h44 : 44 ≤ madtLength b) :
    MadtParsed b (Madt.start k bytes) ↔ MadtRecords b (madtLength b) 0 := by
  have hL : madtLength b < 2 ^ 32 := leValue_lt b 4 4
  have hinv := Madt.start_inv hi hzero hpages bytes (leValue b 36 4)
  have hvalue : ∀ fuel, (parseMadt b fuel (Madt.start k bytes)).value = (madtLoop b (madtLength b)
      fuel 0 { Madt.start k bytes with lapicBaseAddr := leValue b 36 4 }).value := fun fuel => by
    rw [parseMadt, value_bind, value_bind, value_loadLe, value_loadLe, madtLength]
  have hreads : ∀ fuel, (parseMadt b fuel (Madt.start k bytes)).Within (madtLength b) ↔
      (madtLoop b (madtLength b) fuel 0
        { Madt.start k bytes with lapicBaseAddr := leValue b 36 4 }).Within (madtLength b) := by
    intro fuel
    rw [parseMadt, within_bind, within_bind, value_loadLe, value_loadLe, within_loadLe,
      within_loadLe, ← madtLength, and_iff_right (by omega), and_iff_right (by omega)]
  constructor
  · rintro ⟨⟨fuel, s', hs', hwithin⟩, -⟩
    exact records_of_madtLoop h44 hL hinv ((hvalue fuel).symm.trans hs') ((hreads fuel).mp hwithin)
  · intro hrecords
    refine ⟨?_, fun records hb hend hlapics hioapics => ?_⟩
    · obtain ⟨fuel, s', hs', hwithin⟩ := madtLoop_of_records h44 hL hrecords hinv
      exact ⟨fuel, s', (hvalue fuel).trans hs', (hreads fuel).mpr hwithin⟩
    · have hlists : Madt.Lists { Madt.start k bytes with lapicBaseAddr := leValue b 36 4 } [] [] :=
        ⟨rfl, holds_nil, rfl, holds_nil, fun i x hx => by simp at hx⟩
      obtain ⟨fuel, s', hs', hfinal⟩ :=
        madtLoop_of_table h44 hL (c := 0) hb hend hinv hlists hlapics hioapics
      exact ⟨fuel, s', (hvalue fuel).trans hs', hfinal⟩

/-! ### Two tables -/

/-- A MADT with a body. -/
def madtTable (body : List UInt8) : ℕ → UInt8 :=
  store (fun _ => 0) 0 ([0x41, 0x50, 0x49, 0x43] ++ leBytes 4 (44 + body.length) ++
    List.replicate 28 0 ++ leBytes 4 0xfee00000 ++ leBytes 4 1 ++ body)

/-- A kernel of the machine has pages. -/
lemma HandedOut.hasPages {fs : List ℕ} (h : HandedOut fs n k) : k.HasPages n := by
  induction n generalizing fs k with
  | zero => trivial
  | succ n ih =>
    obtain ⟨k', f, halloc, -, -, h'⟩ := h.next
    exact ⟨h.room (by omega), k', _, halloc, ih h'⟩

/-- Fewer pages than there are. -/
lemma Kernel.HasPages.of_le {m : ℕ} (h : k.HasPages n) (hm : m ≤ n) : k.HasPages m := by
  induction m generalizing n k with
  | zero => trivial
  | succ m ih =>
    obtain ⟨n, rfl⟩ : ∃ n', n = n' + 1 := ⟨n - 1, by omega⟩
    obtain ⟨hpage, k', p, halloc, hrest⟩ := h
    exact ⟨hpage, k', p, halloc, ih hrest (by omega)⟩

/-- A processor and an I/O APIC. -/
theorem parse_madt_two_records : ∃ k,
    MadtParsed (madtTable [0, 8, 0, 7, 1, 0, 0, 0, 1, 12, 2, 0, 0, 0, 0xc0, 0xfe, 0, 0, 0, 0])
      (Madt.start k fun _ => 0) := by
  obtain ⟨k, h⟩ := machine_handedOut
  refine ⟨k, (parse_madt_total_iff h.inv (h.used 0 h.null) (h.hasPages.of_le (by norm_num)) _ _
    (by decide)).mpr ?_⟩
  exact .record (by decide) (by decide) (by decide)
    (.record (by decide) (by decide) (by decide) (.done (by decide)))

/-- **A record without a length**: the loop stays there. -/
theorem empty_madt_record : madtLength (madtTable [5, 0]) = 46 ∧ ∀ k bytes fuel,
    (parseMadt (madtTable [5, 0]) fuel (Madt.start k bytes)).value = .error .loops := by
  refine ⟨by decide, fun k bytes fuel => ?_⟩
  have hloop : ∀ fuel s, (madtLoop (madtTable [5, 0]) 46 fuel 0 s).value = .error .loops := by
    intro fuel
    induction fuel with
    | zero => exact fun s => rfl
    | succ fuel ih =>
      intro s
      have hrecord : madtRecord (madtTable [5, 0]) (madtTable [5, 0] (44 + 0)) (44 + 0) s =
          pure (.ok s) := by
        rw [madtRecord, if_neg (by decide), if_neg (by decide)]
      obtain ⟨hvalue, -⟩ := madtLoop_succ (b := madtTable [5, 0]) (L := 46) (c := 0)
        (by norm_num) (by norm_num) (by norm_num) fuel (congrArg Logged.value hrecord)
      exact hvalue.trans (ih s)
  rw [parseMadt, value_bind, value_bind, value_loadLe, value_loadLe]
  exact hloop fuel _

end MicroOS
