import MicroOS.Memory.PmmBootFrames

/-!
The counter `free_memory` in runs of the physical memory manager.

* `Pmm.Accurate`: the counter is the number of free frames, in bytes modulo `2 ^ 32`.
* `MemStep`: the calls of `memory/pmm.c` after `pmm_init`, `pmm_mark_used` among them; `Exact` says
  that a call changes as many frames as it counts.
* `accurate_of_reachable`: in every run of exact calls the counter is accurate.
-/

namespace MicroOS

open ByteMem Checked Run

variable {p p' : Pmm} {L : KernelLayout} {mb : MultibootInfo} {lo fuel page f r : ℕ} {l : List ℕ}

/-! ### The number of free frames -/

/-- The frames that are marked free. -/
def Pmm.freeFrames (p : Pmm) : Finset ℕ := {f ∈ Finset.range frameCount | ¬ p.Used f}

/-- **`free_memory` is the number of free frames**, in bytes modulo `2 ^ 32`. -/
def Pmm.Accurate (p : Pmm) : Prop := p.freeBytes = 4096 * (p.freeFrames.card : ZMod (2 ^ 32))

lemma mem_freeFrames : f ∈ p.freeFrames ↔ f < frameCount ∧ ¬ p.Used f := by
  rw [Pmm.freeFrames, Finset.mem_filter, Finset.mem_range]

/-- Free frames come into use. -/
lemma Pmm.Becomes.card_out (hb : p.Becomes p' fun f => f ∈ l ∨ p.Used f)
    (hfree : ∀ f ∈ l, f < frameCount ∧ ¬ p.Used f) (hnodup : l.Nodup) :
    p'.freeFrames.card + l.length = p.freeFrames.card := by
  have hset : p'.freeFrames = p.freeFrames \ l.toFinset := by
    ext f
    rw [mem_freeFrames, hb.used, Finset.mem_sdiff, mem_freeFrames, List.mem_toFinset, not_or,
      and_assoc, and_comm (a := f ∉ l)]
  have hsub : l.toFinset ⊆ p.freeFrames :=
    fun f hf => mem_freeFrames.mpr (hfree f (List.mem_toFinset.mp hf))
  rw [hset, ← List.toFinset_card_of_nodup hnodup]
  exact Finset.card_sdiff_add_card_eq_card hsub

/-- Frames in use become free. -/
lemma Pmm.Becomes.card_back (hb : p.Becomes p' fun f => f ∉ l ∧ p.Used f)
    (hused : ∀ f ∈ l, f < frameCount ∧ p.Used f) (hnodup : l.Nodup) :
    p'.freeFrames.card = p.freeFrames.card + l.length := by
  have hset : p'.freeFrames = p.freeFrames ∪ l.toFinset := by
    ext f
    rw [mem_freeFrames, hb.used, Finset.mem_union, mem_freeFrames, List.mem_toFinset]
    by_cases hf : f ∈ l
    · simp [hf, (hused f hf).1]
    · simp [hf]
  have hdisj : Disjoint p.freeFrames l.toFinset := Finset.disjoint_left.mpr fun f hf hl =>
    (mem_freeFrames.mp hf).2 (hused f (List.mem_toFinset.mp hl)).2
  rw [hset, Finset.card_union_of_disjoint hdisj, List.toFinset_card_of_nodup hnodup]

/-- Handing frames out keeps the count right when it goes down by their bytes. -/
lemma Pmm.Accurate.out (hp : p.Accurate) (hb : p.Becomes p' fun f => f ∈ l ∨ p.Used f)
    (hfree : ∀ f ∈ l, f < frameCount ∧ ¬ p.Used f) (hnodup : l.Nodup)
    (hcount : p'.freeBytes = p.freeBytes - 4096 * l.length) : p'.Accurate := by
  have hcard : (p.freeFrames.card : ZMod (2 ^ 32)) = p'.freeFrames.card + l.length := by
    rw [← hb.card_out hfree hnodup, Nat.cast_add]
  rw [Pmm.Accurate] at hp ⊢
  rw [hcount, hp, hcard]
  ring

/-- Taking frames back keeps it right when it goes up by them. -/
lemma Pmm.Accurate.back (hp : p.Accurate) (hb : p.Becomes p' fun f => f ∉ l ∧ p.Used f)
    (hused : ∀ f ∈ l, f < frameCount ∧ p.Used f) (hnodup : l.Nodup)
    (hcount : p'.freeBytes = p.freeBytes + 4096 * l.length) : p'.Accurate := by
  rw [Pmm.Accurate] at hp ⊢
  rw [hcount, hp, hb.card_back hused hnodup, Nat.cast_add]
  ring

/-! ### The counter in each call -/

/-- An `int` that is not negative, as a number of pages. -/
lemma cast_amountOf {count : ℤ} (h : 0 ≤ count) :
    ((amountOf count : ℕ) : ZMod (2 ^ 32)) = (count.toNat : ℕ) := by
  have hmod : amountOf count = count.toNat % 2 ^ 32 := by
    rw [amountOf]
    omega
  rw [hmod, ZMod.natCast_mod]

/-- A frame that is handed out is counted. -/
lemma allocFrame_counts {inPool : Bool} (h : allocFrame inPool p = .ok (p', r)) :
    p'.freeBytes = p.freeBytes - 4096 := by
  rw [allocFrame, bind_eq_ok] at h
  obtain ⟨i, -, h⟩ := h
  cases i with
  | none => cases h
  | some i =>
    obtain ⟨map, -, h⟩ := bind_eq_ok.mp h
    cases h
    rw [freeBytes_use, Nat.cast_one, mul_one]
    rfl

/-- A frame that passes the test is not in use. -/
lemma isFreePage_true {i : ℕ} (h : isFreePage p i = .ok true) : ¬ p.Used i := by
  intro hu
  have hmark : p.bitmap.Marked i := hu
  rw [isFreePage, bitmapTest] at h
  split_ifs at h with hi
  · rw [ok_bind, decide_eq_true hmark] at h
    cases h
  · cases h

/-- So is a range, as the count that was asked for. -/
lemma allocRangeFrom_counts {count : ℤ} {i : ℕ} (h : allocRangeFrom p count fuel i = .ok (p', r)) :
    p' = p ∧ r = 0 ∨ (∃ f, ¬ p.Used f ∧ r = f * 0x1000)
      ∧ p'.freeBytes = p.freeBytes - 4096 * (amountOf count : ℕ) := by
  induction fuel generalizing i with
  | zero => cases h
  | succ fuel ih =>
    rw [allocRangeFrom, bind_eq_ok] at h
    obtain ⟨free, hfree, h⟩ := h
    cases free with
    | true =>
      rw [if_pos rfl, bind_eq_ok] at h
      obtain ⟨j, -, h⟩ := h
      cases j with
      | some j => exact ih h
      | none =>
        obtain ⟨map, -, h⟩ := bind_eq_ok.mp h
        cases h
        exact Or.inr ⟨⟨i, isFreePage_true hfree, rfl⟩, freeBytes_use _ _⟩
    | false =>
      rw [if_neg (by simp)] at h
      split_ifs at h with hnext
      · exact ih h
      · cases h
        exact Or.inl ⟨rfl, rfl⟩

/-- The number of pages in a call is not negative. -/
def PmmCall.Counts : PmmCall → Prop
  | .allocRange count => 0 ≤ count
  | .freeRange _ count => 0 ≤ count
  | _ => True

/-- **A call counts the frames** that it hands out and gives back. -/
lemma PmmCall.exec_counts {op : PmmCall} (hcounts : op.Counts) (hzero : p.Used 0)
    (h : op.exec p = .ok (p', r)) :
    p'.freeBytes = p.freeBytes - 4096 * (op.handsOut r).length + 4096 * op.givesBack.length := by
  cases op with
  | alloc =>
    rw [allocFrame_counts h]
    simp [handsOut, givesBack]
  | allocPagetable =>
    rw [allocFrame_counts h]
    simp [handsOut, givesBack]
  | allocRange count =>
    rcases allocRangeFrom_counts h with ⟨rfl, rfl⟩ | ⟨⟨f, hf, rfl⟩, hbytes⟩
    · simp [handsOut, givesBack]
    · have hne : f * 0x1000 ≠ 0 := by
        intro h0
        obtain rfl : f = 0 := by omega
        exact hf hzero
      rw [hbytes, cast_amountOf hcounts, handsOut, if_neg hne, List.length_range']
      simp [givesBack]
  | free page =>
    rw [exec, pmmFree] at h
    cases hmap : bitmapClear p.bitmap (page / 4096) with
    | error e => simp [hmap] at h
    | ok map =>
      rw [hmap] at h
      cases h
      rw [freeBytes_unuse]
      simp [handsOut, givesBack, Pmm.freeBytes]
  | freeRange page count =>
    rw [exec, pmmFreeRange] at h
    cases hmap : bitmapFill bitmapClear count.toNat (page / 4096) p.bitmap with
    | error e => simp [hmap] at h
    | ok map =>
      rw [hmap] at h
      cases h
      rw [freeBytes_unuse, cast_amountOf hcounts]
      simp [handsOut, givesBack, Pmm.freeBytes]

/-! ### Runs -/

/-- A call of the memory manager after `pmm_init`. -/
inductive MemCall where
  | op (op : PmmCall)
  | markUsed (page : ℕ)

/-- One call that frees only frames of live allocations. -/
inductive MemStep (s : PmmState) : MemCall → PmmState → Prop where
  | call {p : Pmm} {r : ℕ} (op : PmmCall) (frees : s.FreesLive op)
      (returns : op.exec s.pmm = .ok (p, r)) : MemStep s (.op op) (s.after op p r)
  | panic (op : PmmCall) (aborts : op.exec s.pmm = .error .abort) : MemStep s (.op op) s
  | mark {p : Pmm} (page : ℕ) (address : page < 2 ^ 32)
      (returns : pmmMarkUsed s.pmm page = .ok p) : MemStep s (.markUsed page) ⟨p, s.live⟩

/-- **The call changes as many frames as it counts**: no number of pages is negative, and only a
free frame is marked. -/
def PmmState.Exact (s : PmmState) : MemCall → Prop
  | .op op => op.Counts
  | .markUsed page => ¬ s.pmm.Used (page / 4096)

/-- **`pmm_init` changes as many frames as it counts**: no frame is freed twice, none is marked
twice, and those that are marked have been freed. -/
structure MultibootInfo.Exact (L : KernelLayout) (mb : MultibootInfo) : Prop where
  freed : (framesOf mb.freed).Nodup
  marks : (framesOf (mb.marks L)).Nodup
  sub : ∀ f ∈ framesOf (mb.marks L), f ∈ framesOf mb.freed

/-- An exact `pmm_init` has returned. -/
def ExactStart (L : KernelLayout) (s : PmmState) : Prop :=
  ∃ fuel mb, mb.Exact L ∧ pmmInit fuel L mb = .ok s.pmm ∧ s.live = []

/-- The counter after an exact `pmm_init`. -/
lemma PmmBooted.accurate (hboot : PmmBooted L mb p) (hexact : mb.Exact L) : p.Accurate := by
  have hset : p.freeFrames = (framesOf mb.freed).toFinset \ (framesOf (mb.marks L)).toFinset := by
    ext f
    rw [mem_freeFrames, hboot.used, Finset.mem_sdiff, List.mem_toFinset, List.mem_toFinset, not_or,
      not_not]
    exact and_iff_right_of_imp fun h => (MultibootInfo.mem_framesOf_freed.mp h.1).lt
  have hsub : (framesOf (mb.marks L)).toFinset ⊆ (framesOf mb.freed).toFinset :=
    fun f hf => List.mem_toFinset.mpr (hexact.sub f (List.mem_toFinset.mp hf))
  have hcard := Finset.card_sdiff_add_card_eq_card hsub
  rw [← hset, List.toFinset_card_of_nodup hexact.marks, List.toFinset_card_of_nodup hexact.freed,
    framesOf, framesOf, List.length_map, List.length_map] at hcard
  rw [Pmm.Accurate, hboot.freeBytes, ← hcard, Nat.cast_add]
  ring

/-- **The step lemma**: an exact call keeps the counter accurate. -/
lemma accurate_step {s t : PmmState} {c : MemCall} (hinv : PmmInv lo s) (hacc : s.pmm.Accurate)
    (hexact : s.Exact c) (hstep : MemStep s c t) : PmmInv lo t ∧ t.pmm.Accurate := by
  cases hstep with
  | call op frees returns =>
    have hcount := op.exec_counts hexact hinv.zero returns
    rcases hinv.call_effect frees with h | ⟨p', r, h, heffect⟩
    · rw [h] at returns
      cases returns
    · cases h.symm.trans returns
      refine ⟨(hinv.effect heffect).1, ?_⟩
      cases heffect with
      | out back free nodup becomes place =>
        refine hacc.out becomes free nodup (hcount.trans ?_)
        rw [back, List.length_nil, Nat.cast_zero, mul_zero, add_zero]
      | back out live nodup becomes =>
        refine hacc.back becomes (fun f hf => ?_) nodup (hcount.trans ?_)
        · have hused := hinv.used f (live f hf)
          exact ⟨hused.2.1, hused.1⟩
        · rw [out, List.length_nil, Nat.cast_zero, mul_zero, sub_zero]
  | panic op aborts => exact ⟨hinv, hacc⟩
  | @mark p' page address returns =>
    obtain ⟨q, h, hb, hcount⟩ := pmmMarkUsed_counts (p := s.pmm) address
    obtain rfl : q = p' := Except.ok.inj (h.symm.trans returns)
    have hmono : ∀ f, s.pmm.Used f → q.Used f := fun f hf => (hb.used f).mpr (Or.inr hf)
    refine ⟨⟨hinv.guarded.of_becomes hb, hmono _ hinv.zero, fun f hf => ?_, hinv.nodup,
      hinv.disjoint⟩, ?_⟩
    · have hused := hinv.used f hf
      exact ⟨hmono f hused.1, hused.2⟩
    · refine hacc.out (l := [page / 4096]) ⟨hb.mask, fun f => ?_⟩ ?_ (List.nodup_singleton _) ?_
      · rw [hb.used, List.mem_singleton]
      · intro f hf
        cases List.mem_singleton.mp hf
        exact ⟨div_lt_frameCount address, hexact⟩
      · rw [hcount, List.length_singleton, Nat.cast_one, mul_one]

/-- **Memory accounting is exact in every run of exact calls.** -/
theorem accurate_of_reachable {s : PmmState}
    (hs : Reachable (ExactStart L) (fun s t => ∃ c, s.Exact c ∧ MemStep s c t) s) :
    s.pmm.Accurate := by
  refine (hs.invariant (fun s => PmmInv L.poolFrame s ∧ s.pmm.Accurate) ?_ ?_).2
  · rintro s ⟨fuel, mb, hexact, hinit, hlive⟩
    have hguard := pmmInit_guarded hinit
    refine ⟨⟨hguard.1, hguard.2, ?_, ?_, ?_⟩, (pmmInit_booted hinit).2.accurate hexact⟩
    · simp [PmmState.Live, hlive]
    · simp [hlive]
    · simp [hlive]
  · rintro s t ⟨hinv, hacc⟩ ⟨c, hexact, hstep⟩
    exact accurate_step hinv hacc hexact hstep

/-- A memory map with the first pages and the image. -/
def countInfo : MultibootInfo :=
  ⟨0x9000, [⟨0, 0x10000, 1⟩, ⟨0x200000, 0x1000, 1⟩], 0xa000, []⟩

lemma countInfo_exact : countInfo.Exact bootLayout := ⟨by decide, by decide, by decide⟩

/-- `pmm_init` takes it. -/
lemma countInfo_booted :
    ∃ p, pmmInit (frameCount + 1) bootLayout countInfo = .ok p ∧
      PmmBooted bootLayout countInfo p := by
  refine pmmInit_exists ⟨fun e he _ => ?_, fun m hm => absurd hm List.not_mem_nil⟩
  rcases List.mem_cons.mp he with rfl | he
  · decide
  · cases List.mem_singleton.mp he
    decide

/-- The count is right behind a frame that is marked as used after the start. -/
theorem accurate_of_reachable_boot : ∃ s : PmmState, s.pmm.Used 0xb
    ∧ Reachable (ExactStart bootLayout) (fun s t => ∃ c, s.Exact c ∧ MemStep s c t) s
    ∧ s.pmm.Accurate := by
  obtain ⟨p, hp, hboot⟩ := countInfo_booted
  obtain ⟨q, hq, hb, -⟩ := pmmMarkUsed_counts (p := p) (show 0xb000 < 2 ^ 32 by norm_num)
  have hfree : ¬ p.Used (0xb000 / 4096) := by
    rw [hboot.used]
    decide
  have hstart : Reachable (ExactStart bootLayout) (fun s t => ∃ c, s.Exact c ∧ MemStep s c t)
      ⟨p, []⟩ := .start ⟨_, countInfo, countInfo_exact, hp, rfl⟩
  have hs := hstart.next ⟨.markUsed 0xb000, hfree, .mark 0xb000 (by norm_num) hq⟩
  exact ⟨⟨q, []⟩, (hb.used _).mpr (Or.inl rfl), hs, accurate_of_reachable hs⟩

/-- The counter is not accurate once a frame in use has been marked. -/
lemma Pmm.Accurate.mark_used (hp : p.Accurate)
    (hb : p.Becomes p' fun f => f = page / 4096 ∨ p.Used f)
    (hused : p.Used (page / 4096)) (hcount : p'.freeBytes = p.freeBytes - 4096) :
    ¬ p'.Accurate := by
  have hset : p'.freeFrames = p.freeFrames := by
    ext f
    rw [mem_freeFrames, mem_freeFrames, hb.used, or_iff_right_of_imp fun h => h ▸ hused]
  have hne : ((4096 : ℕ) : ZMod (2 ^ 32)) ≠ 0 := by
    rw [Ne, ZMod.natCast_eq_zero_iff]
    norm_num
  rw [Pmm.Accurate] at hp ⊢
  rw [hcount, hp, hset, sub_eq_self]
  exact_mod_cast hne

/-- `vmm_init` marks the frame of the text framebuffer, which no section has freed. -/
theorem framebuffer_not_accurate : ∃ s : PmmState,
    Reachable (PmmStarted bootLayout) (fun s t => ∃ c, MemStep s c t) s ∧ ¬ s.pmm.Accurate := by
  obtain ⟨p, hp, hboot⟩ := countInfo_booted
  obtain ⟨q, hq, hb, hcount⟩ := pmmMarkUsed_counts (p := p) (show 0xb8000 < 2 ^ 32 by norm_num)
  have hused : p.Used (0xb8000 / 4096) := by
    rw [hboot.used]
    decide
  have hstart : Reachable (PmmStarted bootLayout) (fun s t => ∃ c, MemStep s c t) ⟨p, []⟩ :=
    .start ⟨_, countInfo, hp, rfl⟩
  exact ⟨⟨q, []⟩, hstart.next ⟨_, .mark 0xb8000 (by norm_num) hq⟩,
    (hboot.accurate countInfo_exact).mark_used hb hused hcount⟩

end MicroOS
