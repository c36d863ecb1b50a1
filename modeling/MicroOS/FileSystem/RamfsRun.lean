import MicroOS.FileSystem.Ramfs

/-!
Runs of RamFS.

* `FileContents`: what a file is to its users, a size and the bytes that were written since the file
  was last too short for them;
* `RamfsEvent`, `RamfsRun`: the calls, and what the rest of the kernel does between them, on the
  files and on their contents;
* `Stored`: the buffers hold the contents; `Stored.resize` and `Stored.store` are the two things
  that a call does to a buffer;
* `ramfs_stores`: in every run in which `vmm_resize` finds the pages it asks for, a file has its
  size, a read returns what was written, and a call on one file leaves the bytes of the others
  alone.

`vmm_alloc` returns null when there is no run of free frames, and neither `vmm_resize` nor RamFS
looks at it: the buffer is then at the bottom of memory, the same for every file.
-/

namespace MicroOS

open ByteMem Checked Run

/-! ### Contents -/

/-- What a file is to its users: its size, and the byte last written at a position, if the file was
not shorter since. -/
structure FileContents where
  fsize : ℕ
  byte : ℕ → Option UInt8

namespace FileContents

/-- A new file. -/
def empty : FileContents := ⟨0, fun _ => none⟩

/-- Bytes are written at an offset. -/
def write (c : FileContents) (data : List UInt8) (offset : ℕ) : FileContents where
  fsize := max c.fsize (offset + data.length)
  byte p := if offset ≤ p ∧ p < offset + data.length then data[p - offset]? else c.byte p

/-- The file is cut or grows to a size. -/
def truncate (c : FileContents) (newSize : ℕ) : FileContents where
  fsize := newSize
  byte p := if p < newSize then c.byte p else none

end FileContents

/-! ### Runs -/

/-- The files with their contents. -/
structure RamfsRun where
  fs : Ramfs
  contents : ℕ → FileContents

/-- A call, or what the rest of the kernel does: a file is opened by a handle, frames are taken and
given back and memory is written. -/
inductive RamfsEvent where
  | open (file node : ℕ)
  | write (file : ℕ) (data : List UInt8) (offset : ℕ)
  | truncate (file newSize : ℕ)
  | other (kernel : Kernel) (bytes : Mem)

/-- The frames of the buffer of a file. -/
def Ramfs.Frame (fs : Ramfs) (n f : ℕ) : Prop := BufferFrame (fs.nodes n).fdata (fs.nodes n).fsize f

namespace RamfsRun

/-- An event can happen: sizes are below `2 ^ 31`, and the rest of the kernel keeps its invariant
and lets the buffers alone. -/
def Allowed (lo : ℕ) (r : RamfsRun) : RamfsEvent → Prop
  | .open _ _ => True
  | .write _ data offset => offset + data.length < 2 ^ 31
  | .truncate _ newSize => newSize < 2 ^ 31
  | .other kernel bytes =>
    KernelInv lo kernel ∧ kernel.pmm.Used 0 ∧
      (∀ n f, r.fs.Frame n f → kernel.pmm.Used f) ∧
      ∀ n x, r.fs.Frame n (x / 0x1000) → bytes x = r.fs.bytes x

/-- What an event does to the files and to their contents. -/
def step (r : RamfsRun) : RamfsEvent → Except Halt RamfsRun
  | .open file node =>
    .ok { r with fs := { r.fs with
      files := Function.update r.fs.files file ⟨node, (r.fs.nodes node).fsize⟩ } }
  | .write file data offset => do
      let n := (r.fs.files file).node
      return ⟨← r.fs.write file data offset,
        Function.update r.contents n ((r.contents n).write data offset)⟩
  | .truncate file newSize => do
      let n := (r.fs.files file).node
      return ⟨← r.fs.truncate file newSize,
        Function.update r.contents n ((r.contents n).truncate newSize)⟩
  | .other kernel bytes => .ok { r with fs := { r.fs with kernel, bytes } }

/-- The step finds the pages it asks for. -/
def Room (r : RamfsRun) : RamfsEvent → Prop
  | .write file data offset =>
    let node := r.fs.nodes (r.fs.files file).node
    node.fsize < offset + data.length →
      HasRoom r.fs.kernel node.fsize (offset + data.length) node.fdata
  | .truncate file newSize =>
    let node := r.fs.nodes (r.fs.files file).node
    HasRoom r.fs.kernel node.fsize newSize node.fdata
  | .open _ _ | .other _ _ => True

/-- A step of a run by an event that meets a condition. -/
def StepOf (lo : ℕ) (C : RamfsRun → RamfsEvent → Prop) (r r' : RamfsRun) : Prop :=
  ∃ e, C r e ∧ r.Allowed lo e ∧ r.step e = .ok r'

/-- RamFS without contents, in a kernel that keeps its invariant. -/
structure Mounted (lo : ℕ) (r : RamfsRun) : Prop where
  inv : KernelInv lo r.fs.kernel
  zero : r.fs.kernel.pmm.Used 0
  nodes : ∀ n, r.fs.nodes n = ⟨0, 0⟩
  contents : ∀ n, r.contents n = .empty

/-! ### The invariant -/

/-- **The buffers hold the contents.** -/
structure Stored (lo : ℕ) (r : RamfsRun) : Prop where
  inv : KernelInv lo r.fs.kernel
  zero : r.fs.kernel.pmm.Used 0
  buffer : ∀ n, Buffer lo r.fs.kernel (r.fs.nodes n).fdata (r.fs.nodes n).fsize
  apart : ∀ n m f, n ≠ m → r.fs.Frame n f → ¬r.fs.Frame m f
  size : ∀ n, (r.fs.nodes n).fsize = (r.contents n).fsize
  byte : ∀ n p b, (r.contents n).byte p = some b →
    p < (r.fs.nodes n).fsize ∧ r.fs.bytes ((r.fs.nodes n).fdata + p) = b

/-- The other files are as they were. -/
structure OthersKept (n : ℕ) (fs fs' : Ramfs) : Prop where
  nodes : ∀ m, m ≠ n → fs'.nodes m = fs.nodes m
  bytes : ∀ m, m ≠ n → ∀ p, p < (fs.nodes m).fsize →
    fs'.bytes ((fs.nodes m).fdata + p) = fs.bytes ((fs.nodes m).fdata + p)

variable {lo n : ℕ} {r r' : RamfsRun} {fs fs' : Ramfs} {c : ℕ → FileContents}

/-- What is kept by two changes is kept by both together. -/
lemma OthersKept.trans {fs'' : Ramfs} (h : OthersKept n fs fs') (h' : OthersKept n fs' fs'') :
    OthersKept n fs fs'' := by
  refine ⟨fun m hm => (h'.nodes m hm).trans (h.nodes m hm), fun m hm p hp => ?_⟩
  have h2 := h'.bytes m hm p (by rw [h.nodes m hm]; exact hp)
  rw [h.nodes m hm] at h2
  exact h2.trans (h.bytes m hm p hp)

/-- A byte of a file lies in its buffer. -/
lemma Stored.frame (h : Stored lo r) {p : ℕ} (hp : p < (r.fs.nodes n).fsize) :
    r.fs.Frame n (((r.fs.nodes n).fdata + p) / 0x1000) := by
  refine bufferFrame_byte (fun hnull => ?_) (h.buffer n).aligned hp
  rw [(h.buffer n).null hnull] at hp
  exact absurd hp (Nat.not_lt_zero p)

/-- Only what the contents say matters. -/
lemma Stored.congr {c' : ℕ → FileContents} (h : Stored lo ⟨fs, c⟩)
    (hsize : ∀ n, (c' n).fsize = (c n).fsize)
    (hbyte : ∀ n p b, (c' n).byte p = some b → (c n).byte p = some b) : Stored lo ⟨fs, c'⟩ :=
  ⟨h.inv, h.zero, h.buffer, h.apart, fun n => (h.size n).trans (hsize n).symm,
    fun n p b hb => h.byte n p b (hbyte n p b hb)⟩

/-- **The buffer of a file is resized.** -/
lemma Stored.resize {k' : Kernel} {bytes' : Mem} {newSize newPtr : ℕ} (h : Stored lo ⟨fs, c⟩)
    (hres : Resized lo fs.kernel fs.bytes (fs.nodes n).fsize (fs.nodes n).fdata k' bytes' newSize
      newPtr) :
    Stored lo ⟨{ fs with
        kernel := k', bytes := bytes', nodes := Function.update fs.nodes n ⟨newSize, newPtr⟩ },
        Function.update c n ((c n).truncate newSize)⟩ ∧
      OthersKept n fs { fs with
        kernel := k', bytes := bytes', nodes := Function.update fs.nodes n ⟨newSize, newPtr⟩ } := by
  have hused : ∀ m f, fs.Frame m f → fs.kernel.pmm.Used f :=
    fun m f hf => ((h.buffer m).frames f hf).1
  have hother : ∀ m, m ≠ n → ∀ f, fs.Frame m f → k'.pmm.Used f :=
    fun m hm f hf => hres.used f (hused m f hf) (h.apart m n f hm hf)
  have hbytes : ∀ m p, p < (fs.nodes m).fsize →
      bytes' ((fs.nodes m).fdata + p) = fs.bytes ((fs.nodes m).fdata + p) :=
    fun m p hp => hres.kept _ (hused m _ (h.frame hp))
  have hzero : ¬fs.Frame n 0 := by
    rintro ⟨hptr, hlow, -⟩
    have hal := (h.buffer n).aligned
    simp only at hal
    omega
  have hself : Function.update fs.nodes n ⟨newSize, newPtr⟩ n = ⟨newSize, newPtr⟩ :=
    Function.update_self _ _ _
  have hne : ∀ m, m ≠ n → Function.update fs.nodes n ⟨newSize, newPtr⟩ m = fs.nodes m :=
    fun m hm => Function.update_of_ne hm _ _
  -- a frame of the new buffer is none of another file
  have hfresh : ∀ m, m ≠ n → ∀ f, BufferFrame newPtr newSize f → ¬fs.Frame m f := by
    intro m hm f hf hframe
    rcases hres.fresh f hf with hold | hfree
    · exact h.apart n m f (Ne.symm hm) hold hframe
    · exact hfree (hused m f hframe)
  refine ⟨⟨hres.inv, hres.used 0 h.zero hzero, fun m => ?_, fun m m' f hmm' hf hf' => ?_,
    fun m => ?_, fun m p b hb => ?_⟩, ⟨hne, fun m hm p hp => hbytes m p hp⟩⟩
  · by_cases hm : m = n
    · subst hm
      dsimp only
      rw [hself]
      exact hres.buffer
    · dsimp only
      rw [hne m hm]
      exact ⟨(h.buffer m).null, (h.buffer m).aligned, (h.buffer m).room,
        fun f hf => ⟨hother m hm f hf, ((h.buffer m).frames f hf).2⟩⟩
  · rw [Ramfs.Frame] at hf hf'
    dsimp only at hf hf'
    by_cases hm : m = n
    · subst hm
      rw [hself] at hf
      rw [hne m' (Ne.symm hmm')] at hf'
      exact hfresh m' (Ne.symm hmm') f hf hf'
    · rw [hne m hm] at hf
      by_cases hm' : m' = n
      · subst hm'
        rw [hself] at hf'
        exact hfresh m hm f hf' hf
      · rw [hne m' hm'] at hf'
        exact h.apart m m' f hmm' hf hf'
  · by_cases hm : m = n
    · subst hm
      simp [FileContents.truncate]
    · simpa [hm] using h.size m
  · by_cases hm : m = n
    · subst hm
      dsimp only at hb ⊢
      rw [Function.update_self, FileContents.truncate] at hb
      dsimp only at hb
      rw [hself]
      by_cases hp : p < newSize
      · rw [if_pos hp] at hb
        obtain ⟨hlt, hbyte⟩ := h.byte m p b hb
        exact ⟨hp, (hres.data p hlt hp).trans hbyte⟩
      · rw [if_neg hp] at hb
        cases hb
    · dsimp only at hb ⊢
      rw [Function.update_of_ne hm] at hb
      rw [hne m hm]
      obtain ⟨hlt, hbyte⟩ := h.byte m p b hb
      exact ⟨hlt, (hbytes m p hlt).trans hbyte⟩

/-- The bytes of a file are overwritten. -/
def overwrite (c : FileContents) (data : List UInt8) (offset : ℕ) : FileContents where
  fsize := c.fsize
  byte p := if offset ≤ p ∧ p < offset + data.length then data[p - offset]? else c.byte p

/-- **Bytes are stored in the buffer of a file.** -/
lemma Stored.store {data : List UInt8} {offset : ℕ} {node : RamfsNode} (h : Stored lo ⟨fs, c⟩)
    (hnode : fs.nodes n = node) (hroom : offset + data.length ≤ node.fsize) :
    Stored lo ⟨{ fs with bytes := storeBytes fs.bytes (wrap32 (node.fdata + offset)) data },
        Function.update c n (overwrite (c n) data offset)⟩ ∧
      OthersKept n fs
        { fs with bytes := storeBytes fs.bytes (wrap32 (node.fdata + offset)) data } := by
  subst hnode
  have hend : (fs.nodes n).fdata + (fs.nodes n).fsize < 2 ^ 32 := (h.buffer n).end_lt
  rw [wrap32_of_lt (by omega)]
  -- a byte of another file is not stored to
  have hother : ∀ m, m ≠ n → ∀ p, p < (fs.nodes m).fsize →
      storeBytes fs.bytes ((fs.nodes n).fdata + offset) data ((fs.nodes m).fdata + p) =
        fs.bytes ((fs.nodes m).fdata + p) := by
    intro m hm p hp
    refine storeBytes_of_disjoint (by omega) ?_
    by_contra hin
    have hframe := h.frame (n := n) (p := (fs.nodes m).fdata + p - (fs.nodes n).fdata)
      (show _ < (fs.nodes n).fsize by omega)
    dsimp only at hframe
    rw [Nat.add_sub_cancel' (by omega)] at hframe
    exact h.apart m n _ hm (h.frame hp) hframe
  refine ⟨⟨h.inv, h.zero, h.buffer, h.apart, fun m => ?_, fun m p b hb => ?_⟩,
    ⟨fun _ _ => rfl, hother⟩⟩
  · by_cases hm : m = n
    · subst hm
      simpa [overwrite] using h.size m
    · simpa [hm] using h.size m
  · by_cases hm : m = n
    · subst hm
      dsimp only at hb ⊢
      rw [Function.update_self, overwrite] at hb
      dsimp only at hb
      by_cases hp : offset ≤ p ∧ p < offset + data.length
      · rw [if_pos hp] at hb
        refine ⟨by omega, ?_⟩
        rw [show (fs.nodes m).fdata + p = (fs.nodes m).fdata + offset + (p - offset) by omega,
          storeBytes_apply (by omega) (by omega), List.getD_eq_getElem?_getD, hb]
        rfl
      · rw [if_neg hp] at hb
        obtain ⟨hlt, hbyte⟩ := h.byte m p b hb
        exact ⟨hlt, (storeBytes_of_disjoint (by omega) (by omega)).trans hbyte⟩
    · dsimp only at hb
      rw [Function.update_of_ne hm] at hb
      obtain ⟨hlt, hbyte⟩ := h.byte m p b hb
      exact ⟨hlt, (hother m hm p hlt).trans hbyte⟩

/-! ### The calls -/

lemma Stored.files (h : Stored lo ⟨fs, c⟩) (files : ℕ → RamfsFile) :
    Stored lo ⟨{ fs with files }, c⟩ := ⟨h.inv, h.zero, h.buffer, h.apart, h.size, h.byte⟩

lemma OthersKept.files (h : OthersKept n fs fs') (files : ℕ → RamfsFile) :
    OthersKept n fs { fs' with files } := ⟨h.nodes, h.bytes⟩

/-- `ramfs_truncate`. -/
lemma Stored.truncate {file newSize : ℕ} (h : Stored lo ⟨fs, c⟩) (hn : (fs.files file).node = n)
    (hsmall : newSize < 2 ^ 31)
    (hroom : HasRoom fs.kernel (fs.nodes n).fsize newSize (fs.nodes n).fdata)
    (htrunc : fs.truncate file newSize = .ok fs') :
    Stored lo ⟨fs', Function.update c n ((c n).truncate newSize)⟩ ∧ OthersKept n fs fs' := by
  subst hn
  rw [Ramfs.truncate, bind_eq_ok] at htrunc
  obtain ⟨⟨k', bytes', ptr⟩, hresize, hret⟩ := htrunc
  obtain rfl := Except.ok.inj hret
  have hres := resizeBytes_resized h.inv h.zero (h.buffer _) hsmall hroom hresize
  obtain ⟨hstored, hothers⟩ := h.resize hres
  exact ⟨hstored.files _, hothers.files _⟩

/-- The contents in a buffer that is large enough. -/
def grow (c : FileContents) (newSize : ℕ) : FileContents :=
  if c.fsize < newSize then c.truncate newSize else c

/-- The buffer of a file is made large enough. -/
lemma Stored.grow {newSize : ℕ} (h : Stored lo ⟨fs, c⟩) (hsmall : newSize < 2 ^ 31)
    (hroom : (fs.nodes n).fsize < newSize →
      HasRoom fs.kernel (fs.nodes n).fsize newSize (fs.nodes n).fdata)
    (hgrow : fs.grow n newSize = .ok fs') :
    Stored lo ⟨fs', Function.update c n (grow (c n) newSize)⟩ ∧ OthersKept n fs fs' ∧
      newSize ≤ (fs'.nodes n).fsize := by
  have hsize : (fs.nodes n).fsize = (c n).fsize := h.size n
  rw [Ramfs.grow] at hgrow
  rw [RamfsRun.grow, ← hsize]
  by_cases hlt : (fs.nodes n).fsize < newSize
  · rw [if_pos hlt, bind_eq_ok] at hgrow
    obtain ⟨⟨k', bytes', ptr⟩, hresize, hret⟩ := hgrow
    obtain rfl := Except.ok.inj hret
    have hres := resizeBytes_resized h.inv h.zero (h.buffer n) hsmall (hroom hlt) hresize
    obtain ⟨hstored, hothers⟩ := h.resize hres
    rw [if_pos hlt]
    refine ⟨hstored, hothers, ?_⟩
    simp
  · rw [if_neg hlt] at hgrow
    obtain rfl := Except.ok.inj hgrow
    rw [if_neg hlt, Function.update_eq_self]
    exact ⟨h, ⟨fun _ _ => rfl, fun _ _ _ _ => rfl⟩, not_lt.mp hlt⟩

/-- `ramfs_write`. -/
lemma Stored.write {file : ℕ} {data : List UInt8} {offset : ℕ} (h : Stored lo ⟨fs, c⟩)
    (hn : (fs.files file).node = n) (hsmall : offset + data.length < 2 ^ 31)
    (hroom : (fs.nodes n).fsize < offset + data.length →
      HasRoom fs.kernel (fs.nodes n).fsize (offset + data.length) (fs.nodes n).fdata)
    (hwrite : fs.write file data offset = .ok fs') :
    Stored lo ⟨fs', Function.update c n ((c n).write data offset)⟩ ∧ OthersKept n fs fs' := by
  subst hn
  rw [Ramfs.write, bind_eq_ok] at hwrite
  obtain ⟨fs₁, hgrow, hret⟩ := hwrite
  obtain rfl := Except.ok.inj hret
  obtain ⟨hgrown, hothers, hfits⟩ := h.grow hsmall hroom hgrow
  obtain ⟨hstored, hothers'⟩ := hgrown.store rfl hfits
  rw [Function.update_self, Function.update_idem] at hstored
  refine ⟨(hstored.congr (fun m => ?_) fun m p b hb => ?_).files _,
    (hothers.trans hothers').files _⟩
  · by_cases hm : m = (fs.files file).node
    · subst hm
      simp only [Function.update_self, FileContents.write, overwrite, RamfsRun.grow]
      split_ifs with hlt
      · exact max_eq_right hlt.le
      · exact max_eq_left (not_lt.mp hlt)
    · rw [Function.update_of_ne hm, Function.update_of_ne hm]
  · by_cases hm : m = (fs.files file).node
    · subst hm
      rw [Function.update_self, FileContents.write] at hb
      rw [Function.update_self, overwrite]
      dsimp only at hb ⊢
      split_ifs at hb ⊢ with hp
      · exact hb
      · -- a byte that was written lies below the old size
        have hlt := (h.byte _ p b hb).1
        rw [h.size] at hlt
        dsimp only at hlt
        rw [RamfsRun.grow, FileContents.truncate]
        split_ifs with hgrew
        · exact (if_pos (hlt.trans hgrew)).trans hb
        · exact hb
    · rw [Function.update_of_ne hm] at hb ⊢
      exact hb

/-- The file that an event is a call on. -/
def On (r : RamfsRun) : RamfsEvent → ℕ → Prop
  | .write file _ _, n | .truncate file _, n => (r.fs.files file).node = n
  | .open _ _, _ | .other _ _, _ => False

/-- **The step lemma**: an event that finds its pages keeps the invariant and the other files. -/
lemma Stored.step {e : RamfsEvent} (h : Stored lo r) (hroom : r.Room e) (hallowed : r.Allowed lo e)
    (hstep : r.step e = .ok r') :
    Stored lo r' ∧ ∀ m, ¬r.On e m → r'.fs.nodes m = r.fs.nodes m ∧
      ∀ p, p < (r.fs.nodes m).fsize →
        r'.fs.bytes ((r.fs.nodes m).fdata + p) = r.fs.bytes ((r.fs.nodes m).fdata + p) := by
  obtain ⟨fs, c⟩ := r
  cases e with
  | «open» file node =>
    obtain rfl := Except.ok.inj hstep
    exact ⟨h.files _, fun m _ => ⟨rfl, fun p _ => rfl⟩⟩
  | write file data offset =>
    rw [RamfsRun.step, bind_eq_ok] at hstep
    obtain ⟨fs', hwrite, hret⟩ := hstep
    obtain rfl := Except.ok.inj hret
    obtain ⟨hstored, hothers⟩ := h.write rfl hallowed hroom hwrite
    refine ⟨hstored, fun m hm => ?_⟩
    have hne : m ≠ (fs.files file).node := fun heq => hm heq.symm
    exact ⟨hothers.nodes m hne, hothers.bytes m hne⟩
  | truncate file newSize =>
    rw [RamfsRun.step, bind_eq_ok] at hstep
    obtain ⟨fs', htrunc, hret⟩ := hstep
    obtain rfl := Except.ok.inj hret
    obtain ⟨hstored, hothers⟩ := h.truncate rfl hallowed hroom htrunc
    refine ⟨hstored, fun m hm => ?_⟩
    have hne : m ≠ (fs.files file).node := fun heq => hm heq.symm
    exact ⟨hothers.nodes m hne, hothers.bytes m hne⟩
  | other kernel bytes =>
    obtain rfl := Except.ok.inj hstep
    obtain ⟨hinv, hzero, hused, hbytes⟩ := hallowed
    refine ⟨⟨hinv, hzero, fun m => ?_, h.apart, h.size, fun m p b hb => ?_⟩,
      fun m _ => ⟨rfl, fun p hp => hbytes m _ (h.frame hp)⟩⟩
    · have hbuf := h.buffer m
      exact ⟨hbuf.null, hbuf.aligned, hbuf.room,
        fun f hf => ⟨hused m f hf, (hbuf.frames f hf).2⟩⟩
    · obtain ⟨hlt, hbyte⟩ := h.byte m p b hb
      exact ⟨hlt, (hbytes m _ (h.frame hlt)).trans hbyte⟩

/-- No file has a buffer at first. -/
lemma Stored.of_mounted (h : Mounted lo r) : Stored lo r := by
  have hframe : ∀ n f, ¬r.fs.Frame n f := by
    rintro n f ⟨hptr, -⟩
    rw [h.nodes n] at hptr
    exact hptr rfl
  refine ⟨h.inv, h.zero, fun n => ⟨fun _ => ?_, ?_, ?_, fun f hf => absurd hf (hframe n f)⟩,
    fun n m f _ hf => absurd hf (hframe n f), fun n => ?_, fun n p b hb => ?_⟩
  · rw [h.nodes n]
  · rw [h.nodes n]
    rfl
  · rw [h.nodes n]
    decide
  · rw [h.nodes n, h.contents n]
    rfl
  · rw [h.contents n] at hb
    cases hb

/-! ### What is read -/

/-- **RamFS stores what is written**: a file has the size of its contents, and a read below it
returns the bytes that were written. -/
structure Stores (r : RamfsRun) : Prop where
  size : ∀ n, (r.fs.nodes n).fsize = (r.contents n).fsize
  read : ∀ file size offset, offset + size ≤ (r.fs.nodes (r.fs.files file).node).fsize →
    ∃ bs, r.fs.read file size offset = .ok bs ∧ bs.length = size ∧
      ∀ i b, i < size → (r.contents (r.fs.files file).node).byte (offset + i) = some b →
        bs[i]? = some b

/-- What the buffers hold is read. -/
lemma Stored.stores (h : Stored lo r) : r.Stores := by
  refine ⟨h.size, fun file size offset hle => ⟨_, if_pos hle, by simp, fun i b hi hb => ?_⟩⟩
  have hend := (h.buffer (r.fs.files file).node).end_lt
  rw [List.getElem?_map, List.getElem?_range hi, Option.map_some, Nat.add_assoc,
    wrap32_of_lt (by omega)]
  exact congrArg some (h.byte _ _ b hb).2

end RamfsRun

open RamfsRun in
/-- **RamFS stores what is written.** In every run of the files in which `vmm_resize` finds the
pages it asks for, the sizes are those of the contents, a read returns the bytes that were written,
and an event leaves the files that it is no call on as they are. -/
theorem ramfs_stores {lo : ℕ} {r : RamfsRun} (h : Reachable (Mounted lo) (StepOf lo Room) r) :
    r.Stores ∧ ∀ e r', r.Room e → r.Allowed lo e → r.step e = .ok r' →
      ∀ m, ¬r.On e m → r'.fs.nodes m = r.fs.nodes m ∧ ∀ p, p < (r.fs.nodes m).fsize →
        r'.fs.bytes ((r.fs.nodes m).fdata + p) = r.fs.bytes ((r.fs.nodes m).fdata + p) := by
  have hstored : Stored lo r :=
    h.invariant (Stored lo) (fun _ => Stored.of_mounted)
      fun r r' hr ⟨e, hroom, hallowed, hstep⟩ => (hr.step hroom hallowed hstep).1
  exact ⟨hstored.stores, fun e r' hroom hallowed hstep =>
    (hstored.step hroom hallowed hstep).2⟩

/-! ### A machine -/

/-- A write to a file without a buffer. -/
structure FirstWrite (n ptr : ℕ) (data : List UInt8) (k' : Kernel) (r r' : RamfsRun) : Prop where
  kernel : r'.fs.kernel = k'
  bytes : r'.fs.bytes = storeBytes r.fs.bytes (wrap32 ptr) data
  nodes : r'.fs.nodes = Function.update r.fs.nodes n ⟨data.length, ptr⟩
  files : ∀ file, (r'.fs.files file).node = (r.fs.files file).node
  contents : r'.contents = Function.update r.contents n ((r.contents n).write data 0)

/-- The first write to a file that is empty gets its buffer from `vmm_alloc`. -/
lemma RamfsRun.step_write_empty {r : RamfsRun} (file : ℕ) (data : List UInt8) {n ptr : ℕ}
    {k' : Kernel} (hn : (r.fs.files file).node = n) (hnode : r.fs.nodes n = ⟨0, 0⟩)
    (hdata : data ≠ [])
    (halloc : vmmAlloc r.fs.kernel (pagesOf data.length) = .ok (k', ptr)) :
    ∃ r', r.step (.write file data 0) = .ok r' ∧ FirstWrite n ptr data k' r r' := by
  subst hn
  have hpos : 0 < data.length := List.length_pos_iff.mpr hdata
  have hgrow : r.fs.grow (r.fs.files file).node (0 + data.length) = .ok { r.fs with
      kernel := k',
      nodes := Function.update r.fs.nodes (r.fs.files file).node ⟨data.length, ptr⟩ } := by
    rw [Ramfs.grow, hnode, Nat.zero_add, if_pos hpos, resizeBytes, vmmResize_bytes, if_pos rfl,
      halloc]
    rfl
  refine ⟨_, by rw [RamfsRun.step, Ramfs.write, hgrow]; rfl, ⟨rfl, ?_, rfl, fun f => ?_, rfl⟩⟩
  · simp only [Function.update_self, Nat.add_zero]
  · by_cases hf : f = file
    · subst hf
      simp only [Function.update_self]
    · simp only [Function.update_of_ne hf]

/-- The files of a kernel, before the first call. -/
def mounted (k : Kernel) : RamfsRun :=
  ⟨⟨k, fun _ => 0, fun _ => ⟨0, 0⟩, fun n => ⟨n, 0⟩⟩, fun _ => .empty⟩

lemma mounted_mounted {lo : ℕ} {k : Kernel} (hinv : KernelInv lo k) (hzero : k.pmm.Used 0) :
    RamfsRun.Mounted lo (mounted k) := ⟨hinv, hzero, fun _ => rfl, fun _ => rfl⟩

open RamfsRun in
/-- A byte is written to a file and read. -/
theorem ramfs_stores_machine :
    ∃ r, Reachable (Mounted bootLayout.poolFrame) (StepOf bootLayout.poolFrame Room) r ∧
      ∃ bs, r.fs.read 0 1 0 = .ok bs ∧ bs[0]? = some 65 := by
  obtain ⟨k, hinv, hzero, hready⟩ := machine_kernel
  have hready : Ready bootLayout.poolFrame {0, 1} 0x440 29 (1 + 62) k := hready
  obtain ⟨k', f, halloc, -⟩ := hready.vmmAlloc (by norm_num) (by norm_num) machine_slots.kernel
    (by decide)
  obtain ⟨g, hrun, -⟩ := hready.run
  obtain ⟨r, hstep, hfirst⟩ :=
    RamfsRun.step_write_empty (r := mounted k) 0 [65] rfl rfl (List.cons_ne_nil _ _) halloc
  have hroom : (mounted k).Room (.write 0 [65] 0) := fun _ _ _ => ⟨g, hrun.take (by decide)⟩
  have hreach : Reachable (Mounted bootLayout.poolFrame) (StepOf bootLayout.poolFrame Room) r :=
    (Reachable.start (mounted_mounted hinv hzero)).next
      ⟨.write 0 [65] 0, hroom, by norm_num [Allowed], hstep⟩
  have hnode : (r.fs.files 0).node = 0 := hfirst.files 0
  have hbyte : (r.contents 0).byte 0 = some 65 := by
    rw [hfirst.contents]
    rfl
  obtain ⟨bs, hread, -, hbytes⟩ := (ramfs_stores hreach).1.read 0 1 0 (by
    rw [hnode, hfirst.nodes]
    exact le_rfl)
  rw [hnode] at hbytes
  exact ⟨r, hreach, bs, hread, hbytes 0 65 one_pos hbyte⟩

/-! ### A full memory -/

open RamfsRun in
/-- **Two files at one place.** All memory is in use, and a byte is written to each of two files:
the first file reads as the second was written. -/
theorem files_share : ¬∀ r,
    Reachable (Mounted bootLayout.poolFrame)
      (StepOf bootLayout.poolFrame fun _ _ => True) r → r.Stores := by
  intro h
  obtain ⟨k, hinv, hzero, hfull, hready⟩ := full_kernel
  obtain ⟨k₁, halloc₁, hready₁, hfull₁⟩ := vmmAlloc_full hready hfull (by decide)
  obtain ⟨k₂, halloc₂, -⟩ := vmmAlloc_full hready₁ hfull₁ (by decide)
  obtain ⟨r₁, hstep₁, hfirst₁⟩ :=
    RamfsRun.step_write_empty (r := mounted k) 0 [2] rfl rfl (List.cons_ne_nil _ _) halloc₁
  have hnode : r₁.fs.nodes 1 = ⟨0, 0⟩ := by
    rw [hfirst₁.nodes]
    rfl
  obtain ⟨r₂, hstep₂, hfirst₂⟩ := RamfsRun.step_write_empty 1 [3] (hfirst₁.files 1) hnode
    (List.cons_ne_nil _ _) (hfirst₁.kernel ▸ halloc₂)
  have hreach : Reachable (Mounted bootLayout.poolFrame)
      (StepOf bootLayout.poolFrame fun _ _ => True) r₂ :=
    ((Reachable.start (mounted_mounted hinv hzero)).next
      ⟨.write 0 [2] 0, trivial, by norm_num [Allowed], hstep₁⟩).next
      ⟨.write 1 [3] 0, trivial, by norm_num [Allowed], hstep₂⟩
  have hfile : (r₂.fs.files 0).node = 0 := (hfirst₂.files 0).trans (hfirst₁.files 0)
  have hnode₂ : r₂.fs.nodes 0 = ⟨1, 0⟩ := by
    rw [hfirst₂.nodes, hfirst₁.nodes]
    rfl
  have hbyte : (r₂.contents 0).byte 0 = some 2 := by
    rw [hfirst₂.contents, hfirst₁.contents]
    rfl
  -- the byte at the bottom of memory was stored last for the second file
  have hlast : r₂.fs.bytes 0 = 3 := by
    rw [hfirst₂.bytes, wrap32_of_lt (by norm_num)]
    have happly := storeBytes_apply (m := r₁.fs.bytes)
      (show 0 + [(3 : UInt8)].length < 2 ^ 32 by norm_num)
      (show 0 < [(3 : UInt8)].length from one_pos)
    exact happly
  obtain ⟨bs, hread, -, hbytes⟩ := (h r₂ hreach).read 0 1 0 (by
    rw [hfile, hnode₂])
  rw [hfile] at hbytes
  have htwo := hbytes 0 2 one_pos hbyte
  rw [Ramfs.read, hfile, hnode₂, if_pos le_rfl] at hread
  obtain rfl := Except.ok.inj hread
  have hthree : r₂.fs.bytes (wrap32 (0 + 0 + 0)) = 2 := Option.some.inj htwo
  rw [wrap32_of_lt (by norm_num), hlast] at hthree
  exact absurd hthree (by decide)

end MicroOS
