import MicroOS.Lib.Run
import MicroOS.User.HeapCalls
import Mathlib.Order.CompletePartialOrder

/-!
Runs of the allocator: a client that starts the heap, calls `malloc`, `calloc`, `realloc` and
`free` in any order, and writes into its blocks in between.

* `Client`: the heap and the blocks the client holds, each with the number of bytes asked for.
* `HeapStep`: one call that is legal and fits the address space, or one store into a block.
* `ClientInv` connects the client's blocks to the segments of the heap; `ClientInv.call` is the
  step lemma, and `ClientInv.of_reachable` the run lemma.
* `reachable_heapInv`: in every run the heap is tiled by its segments and no split wraps.
* `reachable_isolated`: in every run the blocks are apart and keep their bytes.
-/

namespace MicroOS

open ByteMem Chain Run

/-! ### Blocks and headers, as the memory has them -/

namespace Heap

/-- The length in the header before a pointer. -/
def capacity (h : Heap) (p : ℕ) : ℕ := (h.hdr (sub32 p headerSize)).length

/-- The bytes a pointer denotes. -/
def block (h : Heap) (p : ℕ) : Set ℕ := Set.Ico p (p + h.capacity p)

/-- The addresses that following `next` from `heap_start` visits. -/
def Visits (h : Heap) : ℕ → Prop :=
  Relation.ReflTransGen (fun a b => (h.hdr a).next = b ∧ b ≠ 0) h.heapStart

end Heap

/-! ### Clients -/

/-- A call of the allocator's interface. -/
inductive HeapCall where
  | malloc (n : UInt32)
  | calloc (count size : UInt32)
  | realloc (ptr : ℕ) (n : UInt32)
  | free (ptr : ℕ)
  deriving DecidableEq, Repr

namespace HeapCall

/-- The number of bytes a call is for, in natural numbers. -/
def bytes : HeapCall → ℕ
  | malloc n => n.toNat
  | calloc count size => count.toNat * size.toNat
  | realloc _ n => n.toNat
  | free _ => 0

/-- The number of bytes a call asks `malloc` for. -/
def request : HeapCall → ℕ
  | malloc n => n.toNat
  | calloc count size => wrap32 (count.toNat * size.toNat)
  | realloc _ n => n.toNat
  | free _ => 0

/-- The block that a call frees or moves. -/
def target : HeapCall → Option ℕ
  | realloc p _ => some p
  | free p => some p
  | _ => none

/-- `malloc` returns after at most two expansions, see `malloc_spec`. -/
def fuel : ℕ := 3

/-- A request below the top is what was asked for. -/
lemma request_of_lt {op : HeapCall} (h : op.bytes < 2 ^ 32) : op.request = op.bytes := by
  cases op with
  | calloc count size => exact wrap32_of_lt h
  | _ => rfl

lemma three_le_fuel : 3 ≤ fuel := le_refl 3

/-- The call, on the heap. -/
def exec (h : Heap) : HeapCall → Option (Heap × ℕ)
  | malloc n => MicroOS.malloc fuel h n.toNat
  | calloc count size => MicroOS.calloc fuel h count.toNat size.toNat
  | realloc p n => MicroOS.realloc fuel h p n.toNat
  | free p => some (MicroOS.free h p, 0)

end HeapCall

/-- A program on the heap: the pointers it holds, each with the number of bytes asked for. -/
structure Client where
  heap : Heap
  live : List (ℕ × ℕ)

namespace Client

/-- The blocks other than the one at a pointer. -/
def without (c : Client) (p : ℕ) : List (ℕ × ℕ) := c.live.filter (·.1 ≠ p)

/-- What the client holds after a call returned `r`. -/
def liveAfter (c : Client) (r : ℕ) : HeapCall → List (ℕ × ℕ)
  | .malloc n => if r = 0 then c.live else (r, n.toNat) :: c.live
  | .calloc count size =>
    if r = 0 then c.live else (r, wrap32 (count.toNat * size.toNat)) :: c.live
  | .realloc p n =>
    if n = 0 then c.without p else if r = 0 then c.live else (r, n.toNat) :: c.without p
  | .free p => c.without p

/-- One call. -/
def call (c : Client) (op : HeapCall) : Option (Client × ℕ) :=
  (op.exec c.heap).map fun (h, r) => (⟨h, c.liveAfter r op⟩, r)

/-- The client holds the pointer. -/
def Live (c : Client) (p : ℕ) : Prop := p ∈ c.live.map Prod.fst

/-- `free` is called with live pointers, `realloc` with live pointers or with null and `n > 0`. -/
def Legal (c : Client) : HeapCall → Prop
  | .malloc _ => True
  | .calloc _ _ => True
  | .realloc p n => c.Live p ∨ p = 0 ∧ 0 < n.toNat
  | .free p => c.Live p

/-- The heap stays below the top of the address space. `calloc` clears what it asked for even
when `malloc` returned null, so that a request there must not round up to the whole space. -/
def Fits (c : Client) : HeapCall → Prop
  | .malloc n => mallocFits HeapCall.fuel c.heap n.toNat
  | .calloc count size =>
    wrap32 (count.toNat * size.toNat) + 0xf < 2 ^ 32
      ∧ mallocFits HeapCall.fuel c.heap (wrap32 (count.toNat * size.toNat))
  | .realloc p n =>
    p = 0 ∨ c.heap.capacity p < n.toNat → mallocFits HeapCall.fuel c.heap n.toNat
  | .free _ => True

end Client

/-- A client at the return of `initialize_heap`. -/
def HeapStarted (c : Client) : Prop :=
  ∃ m heapAddress pageCount, 0 < heapAddress ∧ 0 < pageCount
    ∧ heapAddress + pageCount * 0x1000 < 2 ^ 32
    ∧ c = ⟨initializeHeap m heapAddress pageCount, []⟩

/-- One step of a client: a call, or a store into one of its blocks. -/
inductive HeapStep : Client → Client → Prop where
  | call {c c' : Client} {r : ℕ} (op : HeapCall) (legal : c.Legal op) (fits : c.Fits op)
      (returns : c.call op = some (c', r)) : HeapStep c c'
  | store {c : Client} {p n : ℕ} (a : ℕ) (v : UInt8) (live : (p, n) ∈ c.live) (low : p ≤ a)
      (high : a < p + n) :
      HeapStep c { c with heap := { c.heap with mem := writeByte c.heap.mem a v } }

/-! ### The invariant of a run -/

/-- **The client's blocks are allocated segments**, each large enough, and no two are one. -/
structure ClientInv (c : Client) (segs : List Seg) : Prop where
  inv : HeapInv c.heap segs
  owns : ∀ b ∈ c.live, ∃ s ∈ segs, s.free = false ∧ s.payload = b.1 ∧ b.2 ≤ s.length
  nodup : (c.live.map Prod.fst).Nodup

variable {c c' : Client} {segs segs' kept : List Seg} {h' : Heap} {s : Seg}

/-- The header before a payload. -/
lemma Shape.capacity_payload {h : Heap} (hs : Shape h segs) (hm : s ∈ segs) :
    h.capacity s.payload = s.length := by
  have hb := hs.bounds hm
  rw [Heap.capacity, Seg.payload, headerSize, sub32_of_le (by omega) (by omega),
    Nat.add_sub_cancel]
  exact (hs.stored s hm).1

lemma Shape.block_payload {h : Heap} (hs : Shape h segs) (hm : s ∈ segs) :
    h.block s.payload = s.bytes := by
  rw [Heap.block, hs.capacity_payload hm, Seg.bytes]

/-- Following `next` visits the segments. -/
lemma Shape.visits_iff {h : Heap} (hs : Shape h segs) (a : ℕ) :
    h.Visits a ↔ a ∈ addrs segs := by
  constructor
  · intro hv
    induction hv with
    | refl =>
      cases segs with
      | nil => exact absurd rfl hs.nonempty
      | cons b l => simp [addrs, ← show b.addr = h.heapStart from hs.tiles.1]
    | tail _ hstep ih =>
      obtain ⟨hnext, hne⟩ := hstep
      obtain ⟨b, hb, rfl⟩ := List.mem_map.mp ih
      obtain ⟨l₁, l₂, rfl⟩ := List.append_of_mem hb
      rw [hs.hdr_eq] at hnext
      cases l₂ with
      | nil => exact absurd hnext.symm hne
      | cons d l => simp [addrs, ← hnext]
  · intro ha
    obtain ⟨b, hb, rfl⟩ := List.mem_map.mp ha
    obtain ⟨l₁, l₂, rfl⟩ := List.append_of_mem hb
    clear ha hb
    -- from the left end of the list on
    induction l₁ using List.reverseRecOn generalizing b l₂ with
    | nil =>
      have hfirst : b.addr = h.heapStart := hs.tiles.1
      rw [hfirst]
      exact Relation.ReflTransGen.refl
    | append_singleton l d ih =>
      have hs' : Shape h (l ++ d :: b :: l₂) := by simpa using hs
      refine (ih d (b :: l₂) hs').tail ⟨?_, ?_⟩
      · rw [hs'.hdr_eq]
        rfl
      · exact (hs.bounds (by simp)).1.ne'

namespace ClientInv

/-- The segment of a held pointer. -/
lemma seg_of_live (hc : ClientInv c segs) {p : ℕ} (hp : c.Live p) :
    ∃ s ∈ segs, s.free = false ∧ s.payload = p := by
  obtain ⟨b, hb, rfl⟩ := List.mem_map.mp hp
  obtain ⟨s, hs, hf, hpay, _⟩ := hc.owns b hb
  exact ⟨s, hs, hf, hpay⟩

/-- A live block is in an allocated segment. -/
lemma block_eq (hc : ClientInv c segs) {b : ℕ × ℕ} (hb : b ∈ c.live) :
    ∃ s ∈ segs, s.free = false ∧ s.payload = b.1 ∧ b.2 ≤ s.length
      ∧ c.heap.block b.1 = s.bytes := by
  obtain ⟨s, hs, hf, hpay, hn⟩ := hc.owns b hb
  exact ⟨s, hs, hf, hpay, hn, by rw [← hpay, hc.inv.shape.block_payload hs]⟩

/-- Null is not held. -/
lemma zero_not_live (hc : ClientInv c segs) : ¬ c.Live 0 := by
  intro h0
  obtain ⟨s, hs, _, hpay⟩ := hc.seg_of_live h0
  simp [Seg.payload, headerSize] at hpay

/-- No block begins at zero. -/
lemma without_zero (hc : ClientInv c segs) : c.without 0 = c.live := by
  refine List.filter_eq_self.mpr fun b hb => ?_
  have : b.1 ≠ 0 := fun h0 => hc.zero_not_live (h0 ▸ List.mem_map_of_mem hb)
  simpa using this

/-- The allocated segments left when some of the blocks are given up. -/
structure Rest (c : Client) (segs : List Seg) (live : List (ℕ × ℕ)) (kept : List Seg) : Prop where
  sub : live.Sublist c.live
  kept : ∀ b ∈ live, ∀ s ∈ segs, s.free = false → s.payload = b.1 → s ∈ kept

lemma rest_self : Rest c segs c.live segs := ⟨List.Sublist.refl _, fun _ _ _ hs _ _ => hs⟩

/-- What is left without one block. -/
lemma rest_without : Rest c segs (c.without s.payload) (segs.filter (· ≠ s)) := by
  refine ⟨List.filter_sublist, fun b hb t ht _ hpay => ?_⟩
  refine List.mem_filter.mpr ⟨ht, ?_⟩
  have hne : b.1 ≠ s.payload := by simpa using (List.mem_filter.mp hb).2
  simp only [ne_eq, decide_eq_true_eq]
  rintro rfl
  exact hne hpay.symm

variable {live : List (ℕ × ℕ)}

/-- Kept segments keep the blocks in them. -/
lemma of_keeps (hc : ClientInv c segs) (hr : Rest c segs live kept) (hi : HeapInv h' segs')
    (hk : Keeps c.heap kept h' segs') :
    ClientInv ⟨h', live⟩ segs'
      ∧ ∀ b ∈ live, Set.EqOn h'.mem c.heap.mem (c.heap.block b.1) := by
  refine ⟨⟨hi, fun b hb => ?_, (hr.sub.map _).nodup hc.nodup⟩, fun b hb => ?_⟩
  · obtain ⟨s, hs, hf, hpay, hn⟩ := hc.owns b (hr.sub.mem hb)
    exact ⟨s, hk.mem s (hr.kept b hb s hs hf hpay) hf, hf, hpay, hn⟩
  · obtain ⟨s, hs, hf, hpay, _, hblock⟩ := hc.block_eq (hr.sub.mem hb)
    rw [hblock]
    exact hk.bytes s (hr.kept b hb s hs hf hpay) hf

/-- A fresh block joins the ones kept. -/
lemma of_allocates {n p : ℕ} (hc : ClientInv c segs) (hr : Rest c segs live kept)
    (ha : Allocates c.heap kept n h' p segs') :
    ClientInv ⟨h', (p, n) :: live⟩ segs'
      ∧ ∀ b ∈ live, Set.EqOn h'.mem c.heap.mem (c.heap.block b.1) := by
  obtain ⟨hlive, hframe⟩ := hc.of_keeps hr ha.inv ha.keeps
  obtain ⟨f, hf, hff, hfp, hfn, hother⟩ := ha.fresh
  refine ⟨⟨ha.inv, ?_, ?_⟩, hframe⟩
  · rintro b hb
    rcases List.mem_cons.mp hb with rfl | hb
    · exact ⟨f, hf, hff, hfp, hfn⟩
    · exact hlive.owns b hb
  · refine List.nodup_cons.mpr ⟨fun hp => ?_, hlive.nodup⟩
    obtain ⟨b, hb, hbp⟩ := List.mem_map.mp hp
    obtain ⟨s, hs, hsf, hpay, _⟩ := hc.owns b (hr.sub.mem hb)
    refine hother s (hr.kept b hb s hs hsf hpay) hsf ?_
    simpa [Seg.payload, hbp] using (hpay.trans hbp).trans hfp.symm

end ClientInv

/-! ### One call -/

/-- **What a call does to the client**: a pointer returned is a block of the size asked for, the
blocks that were not its target stay with their bytes, and `realloc` carries the old bytes
along. -/
structure CallSpec (c : Client) (op : HeapCall) (c' : Client) (r : ℕ) : Prop where
  returned : r ≠ 0 → op.bytes < 2 ^ 32 → (r, op.bytes) ∈ c'.live
  frame : ∀ b ∈ c.live, some b.1 ≠ op.target →
    b ∈ c'.live ∧ Set.EqOn c'.heap.mem c.heap.mem (c.heap.block b.1)
  moved : ∀ p n, op = .realloc p n → c.Live p → r ≠ 0 →
    ∀ i < min (c.heap.capacity p) n.toNat, c'.heap.mem (r + i) = c.heap.mem (p + i)

/-- A call that changed nothing and returned null. -/
lemma CallSpec.refl (op : HeapCall) : CallSpec c op c 0 :=
  ⟨fun h0 => absurd rfl h0, fun _ hb _ => ⟨hb, Set.eqOn_refl _ _⟩,
    fun _ _ _ _ h0 => absurd rfl h0⟩

namespace ClientInv

/-- The calls that are a `malloc`. -/
lemma callSpec_of_allocates (op : HeapCall) {h' : Heap} {r : ℕ} (hc : ClientInv c segs)
    (hop : ∀ p n, op = .realloc p n → p = 0)
    (ha : Allocates c.heap segs op.request h' r segs') :
    ClientInv ⟨h', (r, op.request) :: c.live⟩ segs'
      ∧ CallSpec c op ⟨h', (r, op.request) :: c.live⟩ r := by
  obtain ⟨hc', hframe⟩ := hc.of_allocates rest_self ha
  refine ⟨hc', fun _ hlt => by simp [HeapCall.request_of_lt hlt],
    fun b hb _ => ⟨List.mem_cons_of_mem _ hb, hframe b hb⟩, fun p n heq hp => ?_⟩
  rw [hop p n heq] at hp
  exact absurd hp hc.zero_not_live

lemma mem_without {p : ℕ} {b : ℕ × ℕ} (hb : b ∈ c.live) (hne : b.1 ≠ p) : b ∈ c.without p :=
  List.mem_filter.mpr ⟨hb, by simpa using hne⟩

/-- `free` of a held pointer. -/
lemma call_free (hc : ClientInv c segs) {p : ℕ} (hp : c.Live p) :
    ∃ segs', ClientInv ⟨free c.heap p, c.without p⟩ segs'
      ∧ ∀ b ∈ c.live, b.1 ≠ p → b ∈ c.without p
        ∧ Set.EqOn (free c.heap p).mem c.heap.mem (c.heap.block b.1) := by
  obtain ⟨s, hs, _, rfl⟩ := hc.seg_of_live hp
  obtain ⟨segs', hi, hk⟩ := free_spec hc.inv hs
  obtain ⟨hc', hframe⟩ := hc.of_keeps rest_without hi hk
  exact ⟨segs', hc', fun b hb hne => ⟨mem_without hb hne, hframe b (mem_without hb hne)⟩⟩

/-- `malloc`, and what is called through it. -/
lemma call_malloc (hc : ClientInv c segs) (n : UInt32)
    (hfits : mallocFits HeapCall.fuel c.heap n.toNat) :
    malloc HeapCall.fuel c.heap n.toNat = some (c.heap, 0)
    ∨ ∃ h' r segs', r ≠ 0 ∧ malloc HeapCall.fuel c.heap n.toNat = some (h', r)
      ∧ Allocates c.heap segs n.toNat h' r segs' := by
  rcases malloc_spec hc.inv n.toNat_lt HeapCall.three_le_fuel hfits with
    ⟨_, heq⟩ | ⟨h', r, segs', heq, ha⟩
  · exact Or.inl heq
  · exact Or.inr ⟨h', r, segs', ha.below.1.ne', heq, ha⟩

/-- `realloc` to a size other than zero, of a held pointer. -/
lemma call_realloc (hc : ClientInv c segs) {p : ℕ} {n : UInt32} (hp : c.Live p) (hn : n ≠ 0)
    (hfits : c.Fits (.realloc p n)) :
    ∃ c' r segs', c.call (.realloc p n) = some (c', r) ∧ ClientInv c' segs'
      ∧ CallSpec c (.realloc p n) c' r := by
  have hn0 : n.toNat ≠ 0 := fun h0 => hn (UInt32.toNat_inj.mp h0)
  obtain ⟨s, hs, hsf, rfl⟩ := hc.seg_of_live hp
  have hcap := hc.inv.shape.capacity_payload hs
  have hpne : s.payload ≠ 0 := fun h0 => hc.zero_not_live (h0 ▸ hp)
  by_cases hle : n.toNat ≤ s.length
  · -- in place
    have heq := (realloc_eq_of_stay HeapCall.fuel hn0 hs hc.inv.shape).1 hle
    refine ⟨⟨c.heap, (s.payload, n.toNat) :: c.without s.payload⟩, s.payload, segs, ?_, ?_,
      fun _ _ => List.mem_cons_self, ?_, ?_⟩
    · simp [Client.call, HeapCall.exec, heq, Client.liveAfter, hn, hpne]
    · obtain ⟨hc', _⟩ := hc.of_keeps rest_without hc.inv
        ⟨fun t ht _ => List.mem_of_mem_filter ht, fun _ _ _ => Set.eqOn_refl _ _⟩
      refine ⟨hc.inv, ?_, List.nodup_cons.mpr ⟨?_, hc'.nodup⟩⟩
      · rintro b hb
        rcases List.mem_cons.mp hb with rfl | hb
        · exact ⟨s, hs, hsf, rfl, hle⟩
        · exact hc'.owns b hb
      · simp [Client.without]
    · intro b hb hne
      have hne' : b.1 ≠ s.payload := fun h1 => hne (congrArg some h1)
      exact ⟨List.mem_cons_of_mem _ (mem_without hb hne'), Set.eqOn_refl _ _⟩
    · intro p m heq' _ _ i _
      rw [(HeapCall.realloc.inj heq').1]
  · have hlt : s.length < n.toNat := by omega
    rcases realloc_spec hc.inv hs hsf hlt n.toNat_lt HeapCall.three_le_fuel
        (hfits (Or.inr (by rw [hcap]; exact hlt))) with ⟨_, heq⟩ | ⟨h', r, segs', heq, ha, hcopy⟩
    · refine ⟨c, 0, segs, ?_, hc, CallSpec.refl _⟩
      simp [Client.call, HeapCall.exec, heq, Client.liveAfter, hn]
    · have hr := ha.below.1.ne'
      obtain ⟨hc', hframe⟩ := hc.of_allocates rest_without ha
      refine ⟨_, r, segs', ?_, hc', fun _ _ => List.mem_cons_self, ?_, ?_⟩
      · simp [Client.call, HeapCall.exec, heq, Client.liveAfter, hn, hr]
      · intro b hb hne
        have hne' : b.1 ≠ s.payload := fun h1 => hne (congrArg some h1)
        exact ⟨List.mem_cons_of_mem _ (mem_without hb hne'), hframe b (mem_without hb hne')⟩
      · intro p m heq' _ _ i hi
        rw [← (HeapCall.realloc.inj heq').1] at hi ⊢
        exact hcopy i (by rw [hcap] at hi; omega)

/-- **The step lemma**: a legal call that fits returns, and keeps the invariant. -/
theorem call (hc : ClientInv c segs) {op : HeapCall} (hlegal : c.Legal op) (hfits : c.Fits op) :
    ∃ c' r segs', c.call op = some (c', r) ∧ ClientInv c' segs' ∧ CallSpec c op c' r := by
  cases op with
  | malloc n =>
    rcases hc.call_malloc n hfits with heq | ⟨h', r, segs', hr, heq, ha⟩
    · refine ⟨c, 0, segs, ?_, hc, CallSpec.refl _⟩
      simp [Client.call, HeapCall.exec, heq, Client.liveAfter]
    · obtain ⟨hc', hspec⟩ := hc.callSpec_of_allocates (.malloc n) (by simp) ha
      refine ⟨_, r, segs', ?_, hc', hspec⟩
      simp [Client.call, HeapCall.exec, heq, Client.liveAfter, hr, HeapCall.request]
  | calloc count size =>
    rcases calloc_spec hc.inv HeapCall.three_le_fuel hfits.1 hfits.2 with
      ⟨_, heq⟩ | ⟨h', r, segs', heq, ha⟩
    · refine ⟨c, 0, segs, ?_, hc, CallSpec.refl _⟩
      simp [Client.call, HeapCall.exec, heq, Client.liveAfter]
    · have hr := ha.below.1.ne'
      obtain ⟨hc', hspec⟩ := hc.callSpec_of_allocates (.calloc count size) (by simp) ha
      refine ⟨_, r, segs', ?_, hc', hspec⟩
      simp [Client.call, HeapCall.exec, heq, Client.liveAfter, hr,
        HeapCall.request]
  | realloc p n =>
    by_cases hp : c.Live p
    · by_cases hn : n = 0
      · subst hn
        obtain ⟨segs', hc', hframe⟩ := hc.call_free hp
        refine ⟨_, 0, segs', ?_, hc', fun h0 => absurd rfl h0, fun b hb hne => ?_,
          fun _ _ _ _ h0 => absurd rfl h0⟩
        · rw [Client.call, HeapCall.exec, UInt32.toNat_zero, realloc_zero, Option.map_some]
          rfl
        · exact hframe b hb fun h1 => hne (congrArg some h1)
      · exact hc.call_realloc hp hn hfits
    · -- the null pointer: the call is a `malloc`
      obtain ⟨rfl, hn⟩ := hlegal.resolve_left hp
      have hn' : n ≠ 0 := by
        rintro rfl
        simp at hn
      have hmalloc := realloc_null (h := c.heap) HeapCall.fuel hn.ne'
      rcases hc.call_malloc n (hfits (Or.inl rfl)) with heq | ⟨h', r, segs', hr, heq, ha⟩
      · refine ⟨c, 0, segs, ?_, hc, CallSpec.refl _⟩
        simp [Client.call, HeapCall.exec, hmalloc, heq, Client.liveAfter, hn']
      · obtain ⟨hc', hspec⟩ := hc.callSpec_of_allocates (.realloc 0 n)
          (by rintro p m heq'; exact (HeapCall.realloc.inj heq').1.symm) ha
        refine ⟨_, r, segs', ?_, hc', hspec⟩
        simp [Client.call, HeapCall.exec, hmalloc, heq, Client.liveAfter, hn', hr,
          hc.without_zero, HeapCall.request]
  | free p =>
    obtain ⟨segs', hc', hframe⟩ := hc.call_free hlegal
    refine ⟨⟨free c.heap p, c.without p⟩, 0, segs', rfl, hc', fun h0 => absurd rfl h0,
      fun b hb hne => hframe b hb fun h1 => hne (congrArg some h1), ?_⟩
    rintro q n heq
    cases heq

/-- Where a held block lies. -/
lemma live_bounds (hc : ClientInv c segs) {p n : ℕ} (hb : (p, n) ∈ c.live) :
    c.heap.heapStart + 16 ≤ p ∧ n ≤ c.heap.capacity p ∧ p + c.heap.capacity p ≤ c.heap.heapEnd
      ∧ c.heap.heapEnd < 2 ^ 32 ∧ 16 ∣ c.heap.capacity p := by
  obtain ⟨s, hs, _, rfl, hn⟩ := hc.owns _ hb
  have hbound := hc.inv.shape.bounds hs
  have hlen := (hc.inv.shape.length s hs).2
  rw [hc.inv.shape.capacity_payload hs]
  simp only [Seg.payload, headerSize]
  exact ⟨by omega, hn, by omega, by omega, hlen⟩

/-- Stores into a block, which leave the others as they are. -/
lemma overwrite (hc : ClientInv c segs) {p n : ℕ} {m : Mem} (hb : (p, n) ∈ c.live)
    (hm : ∀ x ∉ c.heap.block p, m x = c.heap.mem x) :
    ClientInv { c with heap := { c.heap with mem := m } } segs
      ∧ ∀ b ∈ c.live, b.1 ≠ p → Set.EqOn m c.heap.mem (c.heap.block b.1) := by
  obtain ⟨s, hs, hsf, hpay, _, hblock⟩ := hc.block_eq hb
  obtain ⟨hi, hk⟩ := hc.inv.overwrite hs (hblock ▸ hm)
  refine ⟨⟨hi, hc.owns, hc.nodup⟩, fun b hb' hne => ?_⟩
  obtain ⟨t, ht, htf, hpay', _, hblock'⟩ := hc.block_eq hb'
  have hts : t ≠ s := by
    rintro rfl
    exact hne (hpay'.symm.trans hpay)
  rw [hblock']
  exact hk.bytes t (List.mem_filter.mpr ⟨ht, by simpa using hts⟩) htf

/-- A store into a block. -/
lemma store (hc : ClientInv c segs) {p n a : ℕ} {v : UInt8} (hb : (p, n) ∈ c.live) (h1 : p ≤ a)
    (h2 : a < p + n) :
    ClientInv { c with heap := { c.heap with mem := writeByte c.heap.mem a v } } segs
      ∧ ∀ b ∈ c.live, b.1 ≠ p →
        Set.EqOn (writeByte c.heap.mem a v) c.heap.mem (c.heap.block b.1) := by
  have hn := (hc.live_bounds hb).2.1
  refine hc.overwrite hb fun x hx => writeByte_of_ne _ _ ?_
  rintro rfl
  exact hx ⟨h1, by omega⟩

/-- `realloc` of a held block that is large enough changes nothing. -/
lemma call_realloc_of_le (hc : ClientInv c segs) {c' : Client} {p r : ℕ} {n : UInt32}
    (hp : c.Live p) (hn : 0 < n.toNat) (hle : n.toNat ≤ c.heap.capacity p)
    (hcall : c.call (.realloc p n) = some (c', r)) : c'.heap = c.heap ∧ r = p := by
  obtain ⟨s, hs, _, rfl⟩ := hc.seg_of_live hp
  rw [hc.inv.shape.capacity_payload hs] at hle
  rw [Client.call, HeapCall.exec,
    (realloc_eq_of_stay HeapCall.fuel hn.ne' hs hc.inv.shape).1 hle, Option.map_some,
    Option.some.injEq, Prod.mk.injEq] at hcall
  obtain ⟨rfl, rfl⟩ := hcall
  exact ⟨rfl, rfl⟩

/-- `malloc` returns null only for a size that rounds to nothing. -/
lemma malloc_ne_zero (hc : ClientInv c segs) {n : UInt32} {r : ℕ}
    (hfits : mallocFits HeapCall.fuel c.heap n.toNat) (hn : 0 < n.toNat)
    (hround : n.toNat + 0xf < 2 ^ 32)
    (heq : malloc HeapCall.fuel c.heap n.toNat = some (h', r)) : r ≠ 0 := by
  rcases malloc_spec hc.inv n.toNat_lt HeapCall.three_le_fuel hfits with
    ⟨h0, -⟩ | ⟨h₁, q, segs', heq', ha⟩
  · rw [roundSize, wrap32] at h0
    split_ifs at h0 <;> omega
  · rw [heq'] at heq
    obtain ⟨-, rfl⟩ := Prod.mk.inj (Option.some.inj heq)
    exact ha.below.1.ne'

/-- `realloc` returns null only for a size that rounds to nothing. -/
lemma call_realloc_ne_zero (hc : ClientInv c segs) {c' : Client} {p r : ℕ} {n : UInt32}
    (hlegal : c.Legal (.realloc p n)) (hfits : c.Fits (.realloc p n)) (hn : 0 < n.toNat)
    (hround : n.toNat + 0xf < 2 ^ 32) (hcall : c.call (.realloc p n) = some (c', r)) : r ≠ 0 := by
  obtain ⟨⟨h', r'⟩, hexec, hout⟩ := Option.map_eq_some_iff.mp hcall
  obtain ⟨-, rfl⟩ := Prod.mk.inj hout
  by_cases hp : c.Live p
  · by_cases hle : n.toNat ≤ c.heap.capacity p
    · rw [(hc.call_realloc_of_le hp hn hle hcall).2]
      rintro rfl
      exact hc.zero_not_live hp
    · obtain ⟨s, hs, hsf, rfl⟩ := hc.seg_of_live hp
      have hcap := hc.inv.shape.capacity_payload hs
      rcases realloc_spec hc.inv hs hsf (by omega) n.toNat_lt HeapCall.three_le_fuel
        (hfits (Or.inr (by omega))) with ⟨h0, -⟩ | ⟨h₁, q, segs', heq, ha, -⟩
      · rw [roundSize, wrap32] at h0
        split_ifs at h0 <;> omega
      · rw [HeapCall.exec, heq] at hexec
        obtain ⟨-, rfl⟩ := Prod.mk.inj (Option.some.inj hexec)
        exact ha.below.1.ne'
  · obtain ⟨rfl, -⟩ := hlegal.resolve_left hp
    rw [HeapCall.exec, realloc_null HeapCall.fuel hn.ne'] at hexec
    exact hc.malloc_ne_zero (hfits (Or.inl rfl)) hn hround hexec

/-- **The run lemma.** -/
theorem of_reachable (hc : Reachable HeapStarted HeapStep c) : ∃ segs, ClientInv c segs := by
  refine hc.invariant (fun c => ∃ segs, ClientInv c segs) ?_ ?_
  · rintro _ ⟨m, heapAddress, pageCount, h0, hp, hfit, rfl⟩
    exact ⟨_, initializeHeap_inv h0 hp hfit, by simp, by simp⟩
  · rintro s t ⟨segs, hs⟩ hst
    cases hst with
    | call op hlegal hfits hret =>
      obtain ⟨c', r, segs', heq, hc', _⟩ := hs.call hlegal hfits
      rw [hret] at heq
      obtain ⟨rfl, rfl⟩ := Prod.mk.inj (Option.some.inj heq)
      exact ⟨segs', hc'⟩
    | store a v hb h1 h2 => exact ⟨segs, (hs.store hb h1 h2).1⟩

end ClientInv

/-! ### What holds in every run -/

/-- **The heap of every run is tiled by its segments.** Following `next` from `heap_start` visits
the segments of a list that tiles the heap, is linked in both directions, ends in `last_hdr`, has
lengths that are non-zero multiples of sixteen and no two free neighbours; every split so far had
room for its header; and the next call returns. -/
theorem reachable_heapInv (hc : Reachable HeapStarted HeapStep c) :
    (∃ segs, HeapInv c.heap segs ∧ ∀ a, c.heap.Visits a ↔ a ∈ addrs segs)
      ∧ (∀ t ∈ c.heap.splits, t.2 + headerSize ≤ t.1)
      ∧ ∀ op, c.Legal op → c.Fits op → (c.call op).isSome := by
  obtain ⟨segs, hs⟩ := ClientInv.of_reachable hc
  refine ⟨⟨segs, hs.inv, hs.inv.shape.visits_iff⟩, hs.inv.splits, fun op hlegal hfits => ?_⟩
  obtain ⟨c', r, _, heq, _⟩ := hs.call hlegal hfits
  simp [heq]

/-- The heap that `main.c` starts, `initialize_heap(HEAP_ADDRESS, HEAP_PAGES)`. -/
def bootClient : Client := ⟨initializeHeap (fun _ => 0) 0xD0000000 0x10, []⟩

lemma bootClient_started : HeapStarted bootClient :=
  ⟨_, _, _, by norm_num, by norm_num, by norm_num, rfl⟩

/-- A request fits when there is a segment for it. -/
lemma fits_of_walk {h : Heap} {n p : ℕ}
    (hwalk : (mallocWalk h (roundSize n) walkFuel h.heapStart).map Prod.snd = some (some p)) :
    mallocFits HeapCall.fuel h n := by
  obtain ⟨⟨h', q⟩, heq, rfl⟩ := Option.map_eq_some_iff.mp hwalk
  rw [HeapCall.fuel, mallocFits, heq]
  trivial

/-- A request fits when the walk finds a segment for it. -/
lemma Client.fits_malloc {n : UInt32} {p : ℕ} (hwalk : (mallocWalk c.heap (roundSize n.toNat)
    walkFuel c.heap.heapStart).map Prod.snd = some (some p)) : c.Fits (.malloc n) := by
  rw [Client.Fits]
  exact fits_of_walk hwalk

lemma bootClient_fits : bootClient.Fits (.malloc 24) :=
  Client.fits_malloc (p := 0xD0000010) (by decide +kernel)

/-- The client behind a call. -/
def Client.after (c : Client) (op : HeapCall) : Client := ((c.call op).map Prod.fst).getD c

/-- A call is a step of the run. -/
lemma reachable_after {op : HeapCall} (hc : Reachable HeapStarted HeapStep c) (hlegal : c.Legal op)
    (hfits : c.Fits op) : Reachable HeapStarted HeapStep (c.after op) := by
  obtain ⟨segs, hs⟩ := ClientInv.of_reachable hc
  obtain ⟨c', r, _, heq, -⟩ := hs.call hlegal hfits
  have hafter : c.after op = c' := by rw [Client.after, heq, Option.map_some, Option.getD_some]
  rw [hafter]
  exact hc.next (.call op hlegal hfits heq)

/-- Two blocks, and a byte in the first one. -/
@[irreducible] def writtenClient : Client :=
  let c := (bootClient.after (.malloc 24)).after (.malloc 40)
  { c with heap := { c.heap with mem := writeByte c.heap.mem 0xD0000012 7 } }

/-- The run up to a store into the first block. -/
lemma reachable_written : Reachable HeapStarted HeapStep writtenClient := by
  have hfirst : Reachable HeapStarted HeapStep (bootClient.after (.malloc 24)) :=
    reachable_after (.start bootClient_started) trivial bootClient_fits
  have hfits : (bootClient.after (.malloc 24)).Fits (.malloc 40) :=
    Client.fits_malloc (p := 0xD0000040) (by decide +kernel)
  have hlive : (0xD0000010, 24) ∈ ((bootClient.after (.malloc 24)).after (.malloc 40)).live := by
    decide +kernel
  have hsecond : Reachable HeapStarted HeapStep
      ((bootClient.after (.malloc 24)).after (.malloc 40)) :=
    reachable_after hfirst trivial hfits
  rw [writtenClient]
  exact hsecond.next (.store 0xD0000012 7 hlive (by norm_num) (by norm_num))

lemma writtenClient_live : writtenClient.Live 0xD0000010 := by
  rw [Client.Live]
  decide +kernel

lemma writtenClient_fits : writtenClient.Fits (.realloc 0xD0000010 100) := by
  rw [Client.Fits]
  exact fun _ => fits_of_walk (p := 0xD0000080) (by decide +kernel)

/-- The first block is moved. -/
@[irreducible] def movedClient : Client := writtenClient.after (.realloc 0xD0000010 100)

/-- The second block is freed: its segment is joined with the one that the first block was in. -/
@[irreducible] def mergedClient : Client := movedClient.after (.free 0xD0000040)

/-- A request fits behind the merge. -/
lemma mergedClient_fits : mergedClient.Fits (.malloc 60) := by
  have hwalk : (mallocWalk mergedClient.heap (roundSize (60 : UInt32).toNat) walkFuel
      mergedClient.heap.heapStart).map Prod.snd = some (some 0xD0000010) := by decide +kernel
  exact Client.fits_malloc hwalk

/-- Behind a move and a merge the heap is tiled, and the joined segment serves a request. -/
theorem reachable_heapInv_boot : (∃ segs, HeapInv mergedClient.heap segs)
    ∧ mergedClient.heap.capacity 0xD0000010 = 96 ∧ (mergedClient.call (.malloc 60)).isSome := by
  have hlive : movedClient.Live 0xD0000040 := by
    rw [Client.Live]
    decide +kernel
  have hmoved : Reachable HeapStarted HeapStep movedClient := by
    rw [movedClient]
    exact reachable_after reachable_written (.inl writtenClient_live) writtenClient_fits
  have hmerged : Reachable HeapStarted HeapStep mergedClient := by
    rw [mergedClient]
    exact reachable_after hmoved hlive trivial
  obtain ⟨⟨segs, hs, _⟩, _, hreturns⟩ := reachable_heapInv hmerged
  exact ⟨⟨segs, hs⟩, by decide +kernel, hreturns (.malloc 60) trivial mergedClient_fits⟩

/-- **The blocks of a client are its own**: large enough, mapped, free of headers and apart. -/
structure Isolated (c : Client) : Prop where
  room : ∀ b ∈ c.live, b.2 ≤ c.heap.capacity b.1
  inside : ∀ b ∈ c.live, ∀ x ∈ c.heap.block b.1, c.heap.heapStart ≤ x ∧ x < c.heap.heapEnd
    ∧ ∃ page ∈ c.heap.mmaps, page ≤ x ∧ x < page + 0x1000
  noHeader : ∀ b ∈ c.live, ∀ a, c.heap.Visits a →
    Disjoint (c.heap.block b.1) (Set.Ico a (a + headerSize))
  disjoint : c.live.Pairwise fun b b' => Disjoint (c.heap.block b.1) (c.heap.block b'.1)

/-- **The invariant says that live blocks are apart.** -/
lemma ClientInv.isolated (hc : ClientInv c segs) : Isolated c := by
  have hs := hc.inv.shape
  refine ⟨?_, ?_, ?_, ?_⟩
  · intro b hb
    obtain ⟨s, hsl, _, hpay, hn⟩ := hc.owns b hb
    rwa [← hpay, hs.capacity_payload hsl]
  · intro b hb x hx
    obtain ⟨s, hsl, _, _, _, hblock⟩ := hc.block_eq hb
    have hbound := hs.bounds hsl
    simp only [hblock, Seg.bytes, Seg.payload, headerSize, Set.mem_Ico] at hx
    exact ⟨by omega, by omega, hc.inv.mapped x (by omega) (by omega)⟩
  · intro b hb a ha
    obtain ⟨s, hsl, _, _, _, hblock⟩ := hc.block_eq hb
    obtain ⟨t, ht, rfl⟩ := List.mem_map.mp ((hs.visits_iff a).mp ha)
    rw [hblock, Set.disjoint_left]
    intro x hx hx'
    have hoff := hs.offHeaders_of_mem_bytes hsl hx t ht
    simp only [headerSize, Set.mem_Ico] at hx'
    omega
  · refine (List.pairwise_map.mp hc.nodup).imp_of_mem fun {b b'} hb hb' hne => ?_
    obtain ⟨s, hsl, _, hpay, _, hblock⟩ := hc.block_eq hb
    obtain ⟨s', hsl', _, hpay', _, hblock'⟩ := hc.block_eq hb'
    rw [hblock, hblock', Set.disjoint_left]
    have hss : s ≠ s' := by
      rintro rfl
      exact hne (hpay.symm.trans hpay')
    exact fun x hx => hc.inv.not_mem_bytes hsl' hsl hss hx

/-- **The blocks of every run are isolated**, and every further call returns, hands out room of
its own, keeps the bytes of the blocks it was not called for and carries the bytes of a block it
moves. -/
theorem reachable_isolated (hc : Reachable HeapStarted HeapStep c) :
    Isolated c ∧ ∀ op, c.Legal op → c.Fits op →
      ∃ c' r, c.call op = some (c', r) ∧ Isolated c' ∧ CallSpec c op c' r := by
  obtain ⟨segs, hs⟩ := ClientInv.of_reachable hc
  refine ⟨hs.isolated, fun op hlegal hfits => ?_⟩
  obtain ⟨c', r, segs', heq, hc', hspec⟩ := hs.call hlegal hfits
  exact ⟨c', r, heq, hc'.isolated, hspec⟩

/-- The first block is moved, and its byte with it. -/
theorem reachable_isolated_boot :
    ∃ c, writtenClient.call (.realloc 0xD0000010 100) = some (c, 0xD0000080)
      ∧ (0xD0000080, 100) ∈ c.live ∧ (0xD0000040, 40) ∈ c.live ∧ c.heap.mem 0xD0000082 = 7
      ∧ Isolated c := by
  have hr : (writtenClient.call (.realloc 0xD0000010 100)).map Prod.snd = some 0xD0000080 := by
    decide +kernel
  obtain ⟨c, r, heq, hc, hspec⟩ := (reachable_isolated reachable_written).2
    (.realloc 0xD0000010 100) (.inl writtenClient_live) writtenClient_fits
  rw [heq] at hr
  obtain rfl : r = 0xD0000080 := Option.some.inj hr
  have hbyte : writtenClient.heap.mem 0xD0000012 = 7 := by decide +kernel
  have hmoved := hspec.moved 0xD0000010 100 rfl writtenClient_live (by norm_num) 2
    (by decide +kernel)
  exact ⟨c, heq, hspec.returned (by norm_num) (by decide),
    (hspec.frame (0xD0000040, 40) (by decide +kernel) (by decide)).1, hmoved.trans hbyte, hc⟩

end MicroOS
