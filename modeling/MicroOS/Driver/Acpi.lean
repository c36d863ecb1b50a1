import MicroOS.FileSystem.Paths

/-!
The search for an ACPI table, `driver/acpi/rsdp.c`.

* `mapSdt`: `map_sdt`; `mapSdt_ok` and `mapSdt_eq` say of which tables it maps the pages, and which;
  `sdtMappable_of_offset`: among them is every table whose length is in its first page;
* `searchTables`, `findSdt`: a loop of `find_SDT`, and `find_SDT`, which read pages only that are
  mapped, some of them before;
* `FindsTable`: a search finds the first table with a signature and visits no other pointers;
* `find_sdt_finds_iff`: the searches that do.
-/

namespace MicroOS

open ByteMem ByteImage Checked

/-- What a search has done: the pages that it has mapped, and the entries of which tables it has
read, mapped and compared. -/
structure SdtLog where
  pages : List ℕ
  visited : List (ℕ × ℕ)

/-- `header->length`. -/
def sdtLength (m : Mem) (header : ℕ) : ℕ := leValue (view m header) 4 4

/-- `header->signature`. -/
def sdtSignature (m : Mem) (header : ℕ) : List UInt8 := (List.range 4).map (view m header)

/-- `ALIGN_PAGE_DOWN`. -/
def alignPageDown (p : ℕ) : ℕ := p - p % 0x1000

/-- Bytes are in pages that are mapped. -/
def InPages (pages : List ℕ) (a n : ℕ) : Prop := ∀ i < n, alignPageDown (wrap32 (a + i)) ∈ pages

instance (pages : List ℕ) (a n : ℕ) : Decidable (InPages pages a n) :=
  inferInstanceAs (Decidable (∀ i < n, alignPageDown (wrap32 (a + i)) ∈ pages))

/-- The end of the loop of `map_sdt`. -/
def mapEnd (m : Mem) (header : ℕ) : ℕ :=
  wrap32 (alignPageDown header + wrap32 (sdtLength m header + 0x1000))

/-- `map_sdt`, with the pages that are mapped. -/
def mapSdt (m : Mem) (fuel header : ℕ) (pages : List ℕ) : Except Halt (List ℕ) := do
  let start := alignPageDown header
  let pages := pages ++ [start]
  -- `header->length`, of which the first page only is known to be mapped
  if ¬InPages pages (header + 4) 4 then .error (.outOfBounds header)
  else
    let (_, pages) ← repeatWhile (fun s : ℕ × List ℕ => s.1 < mapEnd m header)
      (fun s => .ok (wrap32 (s.1 + 0x1000), s.2 ++ [s.1])) .loops fuel (start, pages)
    return pages

/-- `rsdt->acpiptr[i]`. -/
def rsdtPtr (m : Mem) (rsdt i : ℕ) : ℕ := leValue (view m rsdt) (36 + 4 * i) 4

/-- `(uint32_t) xsdt->acpiptr[i]`. -/
def xsdtPtr (m : Mem) (xsdt i : ℕ) : ℕ := wrap32 (leValue (view m xsdt) (36 + 8 * i) 8)

/-- A loop of `find_SDT` over a table whose entries have `size` bytes, from the entry `i` on. -/
def searchTables (m : Mem) (fuel table size : ℕ) (ptr : ℕ → ℕ) (signature : List UInt8) :
    ℕ → ℕ → SdtLog → Except Halt (Option ℕ × SdtLog)
  | 0, _, log => .ok (none, log)
  | k + 1, i, log =>
    if ¬InPages log.pages (table + (36 + size * i)) size then .error (.outOfBounds table)
    else do
      let pages ← mapSdt m fuel (ptr i) log.pages
      let log := ⟨pages, log.visited ++ [(table, i)]⟩
      if sdtSignature m (ptr i) = signature then return (some (ptr i), log)
      else searchTables m fuel table size ptr signature k (i + 1) log

/-- The bound of a loop of `find_SDT`. -/
def searchBound (m : Mem) (table : ℕ) : ℕ := sub32 (sdtLength m table) 36

/-- A loop of `find_SDT`, with its bound: the length of the table is read. -/
def searchTable (m : Mem) (fuel table size : ℕ) (ptr : ℕ → ℕ) (signature : List UInt8)
    (log : SdtLog) : Except Halt (Option ℕ × SdtLog) :=
  if ¬InPages log.pages (table + 4) 4 then .error (.outOfBounds table)
  else searchTables m fuel table size ptr signature (searchBound m table) 0 log

/-- `find_SDT`, when some pages are mapped already. -/
def findSdt (m : Mem) (mapped : List ℕ) (xsdt rsdt : ℕ) (signature : List UInt8) (fuel : ℕ) :
    Except Halt (ℕ × SdtLog) := do
  let (found, log) ←
    if xsdt ≠ 0 then searchTable m fuel xsdt 8 (xsdtPtr m xsdt) signature ⟨mapped, []⟩
    else .ok (none, ⟨mapped, []⟩)
  match found with
  | some header => return (header, log)
  | none => do
      let (found, log) ←
        if rsdt ≠ 0 then searchTable m fuel rsdt 4 (rsdtPtr m rsdt) signature log
        else .ok (none, log)
      return (found.getD 0, log)

variable {m : Mem} {fuel header table size i k n : ℕ} {mapped pages : List ℕ} {ptr : ℕ → ℕ}
  {signature : List UInt8} {log log' : SdtLog} {r : Option ℕ}

/-! ### Mapping a table -/

/-- The fuel that every mapping that ends needs. -/
def mapFuel : ℕ := 2 ^ 20 + 1

lemma alignPageDown_mod (p : ℕ) : alignPageDown p % 0x1000 = 0 := by
  rw [alignPageDown]
  omega

/-- The pages that a table is mapped with. -/
def sdtPages (m : Mem) (header : ℕ) : List ℕ :=
  alignPageDown header ::
    (List.range ((mapEnd m header - alignPageDown header + 0xfff) / 0x1000)).map fun i =>
      alignPageDown header + 0x1000 * i

/-- **A table can be mapped**: its length is in pages that are mapped before or in its first one,
and the loop over its pages does not go round. -/
def SdtMappable (m : Mem) (pages : List ℕ) (header : ℕ) : Prop :=
  InPages (pages ++ [alignPageDown header]) (header + 4) 4 ∧ mapEnd m header ≤ 2 ^ 32 - 0x1000

instance (m : Mem) (pages : List ℕ) (header : ℕ) : Decidable (SdtMappable m pages header) :=
  inferInstanceAs (Decidable (_ ∧ _))

/-- **A table whose length is in its first page** can be mapped: nothing behind that page is read
before it is. -/
theorem sdtMappable_of_offset (hheader : header < 2 ^ 32) (hoffset : header % 0x1000 ≤ 0xff8)
    (hend : mapEnd m header ≤ 2 ^ 32 - 0x1000) (pages : List ℕ) : SdtMappable m pages header := by
  refine ⟨fun i hi => List.mem_append_right _ (List.mem_singleton.mpr ?_), hend⟩
  rw [alignPageDown, alignPageDown, wrap32_of_lt (by omega)]
  omega

/-- A mapping whose end is in the last page goes round and round, and one that ends has mapped the
pages up to there. -/
lemma mapSdt_ok (hheader : header < 2 ^ 32) {pages' : List ℕ}
    (h : mapSdt m fuel header pages = .ok pages') :
    SdtMappable m pages header ∧ pages' = pages ++ sdtPages m header := by
  rw [mapSdt] at h
  dsimp only at h
  split_ifs at h with hlength
  obtain ⟨⟨curr, pages''⟩, hloop, hret⟩ := bind_eq_ok.mp h
  obtain rfl := Except.ok.inj hret
  have hstart := alignPageDown_mod header
  have hstart_lt : alignPageDown header < 2 ^ 32 := (Nat.sub_le _ _).trans_lt hheader
  obtain ⟨⟨⟨halign, hlt⟩, hpages⟩, hend⟩ := repeatWhile_rule
    (fun s : ℕ × List ℕ => (s.1 % 0x1000 = 0 ∧ s.1 < 2 ^ 32) ∧
      (mapEnd m header ≤ 2 ^ 32 - 0x1000 → ∃ k,
        s.1 = alignPageDown header + 0x1000 * k ∧ (0 < k → s.1 < mapEnd m header + 0x1000) ∧
        s.2 = pages ++ [alignPageDown header] ++
          (List.range k).map fun i => alignPageDown header + 0x1000 * i))
    (fun s t hs htest hbody => by
      obtain rfl := Except.ok.inj hbody
      have htest := of_decide_eq_true htest
      refine ⟨⟨?_, wrap32_lt _⟩, fun hend => ?_⟩
      · rw [wrap32]
        omega
      · obtain ⟨k, hk, -, hlist⟩ := hs.2 hend
        have hnext : wrap32 (s.1 + 0x1000) = s.1 + 0x1000 := wrap32_of_lt (by omega)
        refine ⟨k + 1, ?_, fun _ => ?_, ?_⟩
        · dsimp only
          rw [hnext, hk, Nat.mul_succ, Nat.add_assoc]
        · dsimp only
          rw [hnext]
          exact Nat.add_lt_add_right htest _
        · rw [hlist, List.range_succ, List.map_append, hk, List.append_assoc, List.map_singleton])
    ⟨⟨hstart, hstart_lt⟩, fun _ => ⟨0, rfl, fun h => absurd h (lt_irrefl 0), by simp⟩⟩ hloop
  have hend := of_decide_eq_false hend
  dsimp only at halign hlt hend hpages
  have hle : mapEnd m header ≤ 2 ^ 32 - 0x1000 := by omega
  obtain ⟨k, hcurr, hk, hlist⟩ := hpages hle
  have hcount : k = (mapEnd m header - alignPageDown header + 0xfff) / 0x1000 := by
    rcases Nat.eq_zero_or_pos k with rfl | hpos
    · omega
    · have := hk hpos
      omega
  refine ⟨⟨hlength, hle⟩, ?_⟩
  rw [hlist, sdtPages, ← hcount, List.append_assoc, List.singleton_append]

/-- A mapping whose end is in front of the last page returns. -/
lemma mapSdt_eq (hheader : header < 2 ^ 32) (h : SdtMappable m pages header) :
    mapSdt m mapFuel header pages = .ok (pages ++ sdtPages m header) := by
  obtain ⟨hlength, hend⟩ := h
  have hturn : ∀ s : ℕ × List ℕ, s.1 % 0x1000 = 0 → decide (s.1 < mapEnd m header) = true →
      ∃ t, (.ok (wrap32 (s.1 + 0x1000), s.2 ++ [s.1]) : Except Halt (ℕ × List ℕ)) = .ok t ∧
        t.1 % 0x1000 = 0 ∧ (2 ^ 32 - t.1) / 0x1000 < (2 ^ 32 - s.1) / 0x1000 := by
    intro s hs htest
    have htest := of_decide_eq_true htest
    have hnext : wrap32 (s.1 + 0x1000) = s.1 + 0x1000 := wrap32_of_lt (by omega)
    refine ⟨_, rfl, ?_, ?_⟩
    · dsimp only
      omega
    · dsimp only
      omega
  obtain ⟨⟨curr, pages'⟩, hloop, -⟩ := repeatWhile_ok Halt.loops (fun s => s.1 % 0x1000 = 0)
    (fun s => (2 ^ 32 - s.1) / 0x1000) hturn
    (s := (alignPageDown header, pages ++ [alignPageDown header])) (n := mapFuel)
    (alignPageDown_mod header) (by dsimp only [mapFuel]; omega)
  have hret : mapSdt m mapFuel header pages = .ok pages' := by
    rw [mapSdt]
    dsimp only
    rw [if_neg (not_not.mpr hlength), hloop]
    rfl
  rw [hret, (mapSdt_ok hheader hret).2]

/-! ### Searching a table -/

/-- The pages that are mapped when a search comes to an entry. -/
def pagesBefore (m : Mem) (mapped : List ℕ) (ptr : ℕ → ℕ) (i : ℕ) : List ℕ :=
  mapped ++ (List.range i).flatMap fun j => sdtPages m (ptr j)

lemma pagesBefore_zero : pagesBefore m mapped ptr 0 = mapped := List.append_nil _

/-- A turn of the search maps the pages of its table behind those of the turns before it. -/
lemma pagesBefore_succ :
    pagesBefore m mapped ptr (i + 1) = pagesBefore m mapped ptr i ++ sdtPages m (ptr i) := by
  rw [pagesBefore, List.range_succ, List.flatMap_append, ← List.append_assoc, ← pagesBefore,
    List.flatMap_singleton]

/-- **An entry can be visited**: it is in pages that are mapped by then, and the table that it
points to can be mapped. -/
def Visitable (m : Mem) (mapped : List ℕ) (table size : ℕ) (ptr : ℕ → ℕ) (i : ℕ) : Prop :=
  InPages (pagesBefore m mapped ptr i) (table + (36 + size * i)) size ∧
    SdtMappable m (pagesBefore m mapped ptr i) (ptr i)

instance (m : Mem) (mapped : List ℕ) (table size : ℕ) (ptr : ℕ → ℕ) (i : ℕ) :
    Decidable (Visitable m mapped table size ptr i) := inferInstanceAs (Decidable (_ ∧ _))

/-- The entries from `i` up to `b` are the entry `i` and those behind it. -/
lemma mem_visited_iff {l : List (ℕ × ℕ)} {v : ℕ × ℕ} {b : ℕ} (hi : i < b) :
    v ∈ l ++ [(table, i)] ∨ v.1 = table ∧ i + 1 ≤ v.2 ∧ v.2 < b ↔
      v ∈ l ∨ v.1 = table ∧ i ≤ v.2 ∧ v.2 < b := by
  obtain ⟨t, j⟩ := v
  rw [List.mem_append, List.mem_singleton, Prod.mk.injEq, or_assoc, ← and_or_left]
  exact or_congr_right (and_congr_right fun _ => ⟨fun h => by omega, fun h => by omega⟩)

/-- A search that returns stops at the first table with the signature, or behind the last one. -/
lemma searchTables_ok (hptr : ∀ i, ptr i < 2 ^ 32) (hpages : log.pages = pagesBefore m mapped ptr i)
    (h : searchTables m fuel table size ptr signature k i log = .ok (r, log')) :
    (∃ j, i ≤ j ∧ j < i + k ∧ sdtSignature m (ptr j) = signature ∧ r = some (ptr j) ∧
      (∀ l, i ≤ l → l < j → sdtSignature m (ptr l) ≠ signature) ∧
      (∀ l, i ≤ l → l ≤ j → Visitable m mapped table size ptr l) ∧
      ∀ v, v ∈ log'.visited ↔ v ∈ log.visited ∨ v.1 = table ∧ i ≤ v.2 ∧ v.2 < j + 1) ∨
    r = none ∧ (∀ l, i ≤ l → l < i + k → sdtSignature m (ptr l) ≠ signature) ∧
      ∀ v, v ∈ log'.visited ↔ v ∈ log.visited ∨ v.1 = table ∧ i ≤ v.2 ∧ v.2 < i + k := by
  induction k generalizing i log with
  | zero =>
    obtain ⟨rfl, rfl⟩ := Prod.mk.inj (Except.ok.inj h)
    refine .inr ⟨rfl, fun l hl hlt => absurd hlt (not_lt.mpr hl), fun v => ?_⟩
    constructor
    · exact .inl
    · rintro (hv | ⟨-, hle, hlt⟩)
      · exact hv
      · exact absurd hlt (not_lt.mpr hle)
  | succ k ih =>
    rw [searchTables] at h
    by_cases hentry : InPages log.pages (table + (36 + size * i)) size
    swap
    · rw [if_pos hentry] at h
      exact nomatch h
    rw [if_neg (not_not.mpr hentry)] at h
    obtain ⟨pages, hmap, h⟩ := bind_eq_ok.mp h
    obtain ⟨hmappable, rfl⟩ := mapSdt_ok (hptr i) hmap
    have hvisit : Visitable m mapped table size ptr i := by
      rw [Visitable, ← hpages]
      exact ⟨hentry, hmappable⟩
    dsimp only at h
    split_ifs at h with hsig
    · obtain ⟨rfl, rfl⟩ := Prod.mk.inj (Except.ok.inj h)
      refine .inl ⟨i, le_rfl, by omega, hsig, rfl, fun l hl hlt => absurd hlt (not_lt.mpr hl),
        fun l hl hle => le_antisymm hle hl ▸ hvisit, fun v => ?_⟩
      rw [← mem_visited_iff (Nat.lt_succ_self i), or_iff_left fun h => by omega]
    · -- the header of entry `i` is mapped, and its signature is another one
      rcases ih (by rw [pagesBefore_succ, ← hpages]) h with
        ⟨j, hij, hj, hhit, hr, hmiss, hmaps, hvisited⟩ | ⟨hr, hmiss, hvisited⟩
      · refine .inl ⟨j, by omega, by omega, hhit, hr, fun l hl hlt => ?_, fun l hl hle => ?_,
          fun v => by rw [hvisited, mem_visited_iff (by omega)]⟩
        · rcases hl.eq_or_lt with rfl | hl
          · exact hsig
          · exact hmiss l hl hlt
        · rcases hl.eq_or_lt with rfl | hl
          · exact hvisit
          · exact hmaps l hl hle
      · refine .inr ⟨hr, fun l hl hlt => ?_, fun v => ?_⟩
        · rcases hl.eq_or_lt with rfl | hl
          · exact hsig
          · exact hmiss l hl (by omega)
        · rw [hvisited, mem_visited_iff (by omega), Nat.add_right_comm, Nat.add_assoc]

/-- A search returns when a table with the signature is met before an entry that cannot be
visited. -/
lemma searchTables_returns {j : ℕ} (hptr : ∀ i, ptr i < 2 ^ 32)
    (hpages : log.pages = pagesBefore m mapped ptr i) (hij : i ≤ j) (hj : j < i + k)
    (hhit : sdtSignature m (ptr j) = signature)
    (hmaps : ∀ l, i ≤ l → l ≤ j → Visitable m mapped table size ptr l) :
    ∃ header log', searchTables m mapFuel table size ptr signature k i log =
      .ok (some header, log') := by
  induction k generalizing i log with
  | zero => omega
  | succ k ih =>
    obtain ⟨hentry, hmappable⟩ := hmaps i le_rfl hij
    rw [← hpages] at hentry hmappable
    rw [searchTables, if_neg (not_not.mpr hentry), mapSdt_eq (hptr i) hmappable, ok_bind]
    dsimp only
    split_ifs with hsig
    · exact ⟨_, _, rfl⟩
    · rcases hij.eq_or_lt with rfl | hij
      · exact absurd hhit hsig
      · exact ih (by rw [pagesBefore_succ, ← hpages]) hij (by omega)
          (fun l hl hle => hmaps l (by omega) hle)

/-! ### The search for a signature -/

/-- **The first of the tables with a signature**, and the null pointer if none of them has it. -/
def IsFirst (m : Mem) (ptr : ℕ → ℕ) (n : ℕ) (signature : List UInt8) (header : ℕ) : Prop :=
  (∃ j < n, sdtSignature m (ptr j) = signature ∧
    (∀ i < j, sdtSignature m (ptr i) ≠ signature) ∧ header = ptr j) ∨
  (∀ i < n, sdtSignature m (ptr i) ≠ signature) ∧ header = 0

/-- **A search finds the first table with a signature** among the `n` entries of a table, and maps
and reads what no other entry points to. -/
def FindsTable (m : Mem) (table : ℕ) (ptr : ℕ → ℕ) (n : ℕ) (signature : List UInt8)
    (find : ℕ → Except Halt (ℕ × SdtLog)) : Prop :=
  ∃ fuel header log, find fuel = .ok (header, log) ∧ IsFirst m ptr n signature header ∧
    ∀ v ∈ log.visited, v.1 = table ∧ v.2 < n

/-- A search in one table. -/
def searchOne (m : Mem) (mapped : List ℕ) (table size : ℕ) (ptr : ℕ → ℕ) (signature : List UInt8)
    (k fuel : ℕ) : Except Halt (ℕ × SdtLog) :=
  if ¬InPages mapped (table + 4) 4 then .error (.outOfBounds table)
  else do
    let (found, log) ← searchTables m fuel table size ptr signature k 0 ⟨mapped, []⟩
    return (found.getD 0, log)

/-- **A search whose bound is a multiple of the number of entries.** -/
lemma searchOne_finds_iff {c : ℕ} (hc : 1 < c) (hptr : ∀ i, ptr i < 2 ^ 32) :
    FindsTable m table ptr n signature (searchOne m mapped table size ptr signature (c * n)) ↔
      InPages mapped (table + 4) 4 ∧ (n = 0 ∨ ∃ j < n, sdtSignature m (ptr j) = signature ∧
        ∀ i ≤ j, Visitable m mapped table size ptr i) := by
  constructor
  · rintro ⟨fuel, header, log, hfind, -, honly⟩
    rw [searchOne] at hfind
    split_ifs at hfind with hlength
    refine ⟨hlength, ?_⟩
    obtain ⟨⟨r, log'⟩, hsearch, hret⟩ := bind_eq_ok.mp hfind
    obtain ⟨-, rfl⟩ := Prod.mk.inj (Except.ok.inj hret)
    rcases searchTables_ok hptr pagesBefore_zero.symm hsearch with
      ⟨j, -, -, hhit, -, -, hmaps, hvisited⟩ | ⟨-, -, hvisited⟩
    · have hj := honly (table, j) ((hvisited _).mpr (.inr ⟨rfl, Nat.zero_le j, Nat.lt_succ_self j⟩))
      exact .inr ⟨j, hj.2, hhit, fun i hi => hmaps i (Nat.zero_le i) hi⟩
    · -- the entry behind the last one is visited too
      by_contra hcond
      have hn : 0 < n := Nat.pos_of_ne_zero fun h => hcond (.inl h)
      have hlt : n < 0 + c * n := by
        rw [Nat.zero_add]
        exact lt_mul_of_one_lt_left hn hc
      have hn := honly (table, n) ((hvisited _).mpr (.inr ⟨rfl, Nat.zero_le n, hlt⟩))
      exact absurd hn.2 (lt_irrefl n)
  · rintro ⟨hlength, rfl | ⟨j, hj, hhit, hmaps⟩⟩
    · refine ⟨0, 0, ⟨mapped, []⟩, by rw [searchOne, if_neg (not_not.mpr hlength)]; rfl,
        .inr ⟨fun i hi => absurd hi (Nat.not_lt_zero i), rfl⟩, ?_⟩
      exact fun v hv => absurd hv List.not_mem_nil
    · -- the loop runs past `n`, so that it reaches the entry before its end
      have hbound : j < 0 + c * n := by
        rw [Nat.zero_add]
        exact hj.trans_le (Nat.le_mul_of_pos_left n (by omega))
      obtain ⟨header, log, hsearch⟩ : ∃ header log, searchTables m mapFuel table size ptr signature
          (c * n) 0 ⟨mapped, []⟩ = .ok (some header, log) :=
        searchTables_returns hptr pagesBefore_zero.symm (Nat.zero_le j) hbound hhit
          fun i _ hi => hmaps i hi
      rcases searchTables_ok hptr pagesBefore_zero.symm hsearch with
        ⟨j', -, -, hhit', hr, hmiss, -, hvisited⟩ | ⟨hr, -⟩
      swap
      · exact absurd hr nofun
      have hle : j' ≤ j := by
        by_contra hlt
        exact hmiss j (Nat.zero_le j) (not_le.mp hlt) hhit
      refine ⟨mapFuel, header, log,
        by rw [searchOne, if_neg (not_not.mpr hlength), hsearch]; rfl, .inl ⟨j', hle.trans_lt hj,
        hhit', fun i hi => hmiss i (Nat.zero_le i) hi, Option.some.inj hr⟩, fun v hv => ?_⟩
      rcases (hvisited v).mp hv with hv | ⟨htable, -, hv⟩
      · exact absurd hv List.not_mem_nil
      · exact ⟨htable, by omega⟩

lemma rsdtPtr_lt (m : Mem) (rsdt i : ℕ) : rsdtPtr m rsdt i < 2 ^ 32 := leValue_lt _ _ 4

lemma xsdtPtr_lt (m : Mem) (xsdt i : ℕ) : xsdtPtr m xsdt i < 2 ^ 32 := wrap32_lt _

/-- The bound of the loop over a table of `n` entries. -/
lemma searchBound_eq (hlength : sdtLength m table = 36 + k) : searchBound m table = k := by
  have hlt : sdtLength m table < 2 ^ 32 := leValue_lt _ _ 4
  rw [searchBound, sub32_of_le hlt (by omega), hlength, Nat.add_sub_cancel_left]

/-- The search in an RSDT, four bytes for each entry. -/
lemma findSdt_rsdt (htable : table ≠ 0) (hlength : sdtLength m table = 36 + 4 * n) :
    findSdt m mapped 0 table signature =
      searchOne m mapped table 4 (rsdtPtr m table) signature (4 * n) := by
  funext fuel
  rw [findSdt, if_neg (not_not.mpr rfl), ok_bind]
  dsimp only
  rw [if_pos htable, searchTable, searchBound_eq hlength, searchOne]
  split_ifs
  · rfl
  · rfl

/-- The search in an XSDT, eight bytes for each entry. -/
lemma findSdt_xsdt (htable : table ≠ 0) (hlength : sdtLength m table = 36 + 8 * n) :
    findSdt m mapped table 0 signature =
      searchOne m mapped table 8 (xsdtPtr m table) signature (8 * n) := by
  funext fuel
  rw [findSdt, if_pos htable, searchTable, searchBound_eq hlength, searchOne]
  by_cases hmapped : InPages mapped (table + 4) 4
  swap
  · rw [if_pos hmapped, if_pos hmapped]
    rfl
  · rw [if_neg (not_not.mpr hmapped), if_neg (not_not.mpr hmapped)]
    cases searchTables m fuel table 8 (xsdtPtr m table) signature (8 * n) 0 ⟨mapped, []⟩ with
    | error e => rfl
    | ok x =>
      obtain ⟨found, log⟩ := x
      cases found with
      | none => rfl
      | some header => rfl

/-- **`find_SDT` finds a table** just where one of the entries has its signature, up to which all
can be visited, or where there is no entry. -/
theorem find_sdt_finds_iff (m : Mem) (mapped : List ℕ) (table n : ℕ) (signature : List UInt8) :
    (table ≠ 0 → sdtLength m table = 36 + 4 * n →
      (FindsTable m table (rsdtPtr m table) n signature (findSdt m mapped 0 table signature) ↔
        InPages mapped (table + 4) 4 ∧
          (n = 0 ∨ ∃ j < n, sdtSignature m (rsdtPtr m table j) = signature ∧
            ∀ i ≤ j, Visitable m mapped table 4 (rsdtPtr m table) i))) ∧
    (table ≠ 0 → sdtLength m table = 36 + 8 * n →
      (FindsTable m table (xsdtPtr m table) n signature (findSdt m mapped table 0 signature) ↔
        InPages mapped (table + 4) 4 ∧
          (n = 0 ∨ ∃ j < n, sdtSignature m (xsdtPtr m table j) = signature ∧
            ∀ i ≤ j, Visitable m mapped table 8 (xsdtPtr m table) i))) := by
  constructor
  · intro htable hlength
    rw [findSdt_rsdt htable hlength]
    exact searchOne_finds_iff (by norm_num) (rsdtPtr_lt m table)
  · intro htable hlength
    rw [findSdt_xsdt htable hlength]
    exact searchOne_finds_iff (by norm_num) (xsdtPtr_lt m table)

/-- An RSDT of one entry at `0x1000`, which points to a table `FACP`. -/
def facpTables : Mem :=
  store (store (fun _ => 0) 0x1000
    ([0x52, 0x53, 0x44, 0x54] ++ leBytes 4 40 ++ List.replicate 28 0 ++ leBytes 4 0x2000)) 0x2000
    ([0x46, 0x41, 0x43, 0x50] ++ leBytes 4 36)

/-- The table `FACP` is found, with the page of the RSDT mapped. -/
theorem find_sdt_finds_facp :
    FindsTable facpTables 0x1000 (rsdtPtr facpTables 0x1000) 1 [0x46, 0x41, 0x43, 0x50]
      (findSdt facpTables [0x1000] 0 0x1000 [0x46, 0x41, 0x43, 0x50]) := by
  refine ((find_sdt_finds_iff facpTables [0x1000] 0x1000 1 _).1 (by decide) (by decide)).mpr
    ⟨by decide, .inr ⟨0, by decide, by decide, fun i hi => ?_⟩⟩
  obtain rfl := Nat.le_zero.mp hi
  exact ⟨by decide, by decide, by decide⟩

/-- **A search for `APIC` goes on behind the only entry.** -/
theorem absent_table_misread : sdtLength facpTables 0x1000 = 36 + 4 * 1 ∧
    sdtSignature facpTables (rsdtPtr facpTables 0x1000 0) = [0x46, 0x41, 0x43, 0x50] ∧
    ∀ mapped, ¬FindsTable facpTables 0x1000 (rsdtPtr facpTables 0x1000) 1 [0x41, 0x50, 0x49, 0x43]
      (findSdt facpTables mapped 0 0x1000 [0x41, 0x50, 0x49, 0x43]) := by
  have hlength : sdtLength facpTables 0x1000 = 36 + 4 * 1 := by decide
  have hsig : sdtSignature facpTables (rsdtPtr facpTables 0x1000 0) = [0x46, 0x41, 0x43, 0x50] := by
    decide
  refine ⟨hlength, hsig, fun mapped h => ?_⟩
  rw [findSdt_rsdt (by decide) hlength,
    searchOne_finds_iff (by norm_num) (rsdtPtr_lt facpTables 0x1000)] at h
  rcases h.2 with h | ⟨j, hj, hhit, -⟩
  · exact one_ne_zero h
  · obtain rfl := Nat.lt_one_iff.mp hj
    exact absurd (hsig.symm.trans hhit) (by decide)

end MicroOS
