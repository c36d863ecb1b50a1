import MicroOS.FileSystem.SafMake

/-!
The size that `main` of `pkgs/saf/make/main.c` allocates, and what is written into it.

* `Contained`: a part of the writer stores nothing behind the offset that it ends at;
  `nodeLoop_contained` is the induction over the tree;
* `nodeLoop_ne_abort`: `inc_offset` does not panic where there is room for the nodes;
* `saf_make_allocates`: **`alloc_needed` is the offset behind the last node**, and nothing is
  written there.
-/

namespace MicroOS

open ByteMem ByteImage Checked

variable {host : SafHost} {path res name input : List UInt8} {fuel idx n nc off : ℕ} {l : Listing}
  {a a' a'' : Arch} {offsets : List ℕ} {m : ℕ → UInt8}

/-! ### Nothing is written behind the offset -/

/-- Nothing is stored behind the offset that a part of the writer ends at. -/
def Contained (a a' : Arch) : Prop := ∀ i, a'.currOffset ≤ i → a'.bytes i = a.bytes i

/-- Two writers, one behind the other, stay inside. -/
lemma Contained.trans (h : Contained a a') (h' : Contained a' a'')
    (hle : a'.currOffset ≤ a''.currOffset) : Contained a a'' :=
  fun i hi => (h' i hi).trans (h i (hle.trans hi))

/-- A header that is begun has 280 bytes. -/
lemma beginNode_above (hname : DirName name) {i : ℕ} (hi : a.currOffset + 280 ≤ i) :
    (a.beginNode name).bytes i = a.bytes i := by
  have hlt := hname.length_lt
  rw [beginNode_bytes, store_of_disjoint (.inr ?_), store_of_disjoint (.inr ?_),
    store_of_disjoint (.inr ?_)]
  · rwa [List.length_replicate]
  · rw [length_leBytes]
    omega
  · rw [List.length_append, List.length_singleton]
    omega

/-- A file is written inside of its place. -/
lemma fileNode_contained {fullpath data : List UInt8} (hname : DirName name)
    (hopen : host.fopen fullpath = some data)
    (h : fileNode host fullpath (a.beginNode name) = .ok a') : Contained a a' := by
  rw [fileNode, bind_eq_ok] at h
  obtain ⟨a₁, hinc₁, h⟩ := h
  obtain ⟨rfl, -⟩ := incOffset_ok hinc₁
  rw [hopen] at h
  obtain ⟨a₂, hinc₂, hret⟩ := bind_eq_ok.mp h
  obtain ⟨rfl, -⟩ := incOffset_ok hinc₂
  obtain rfl := Except.ok.inj hret
  have hsize : fileNodeSize = 296 := rfl
  intro i hi
  have hi : a.currOffset + fileNodeSize + data.length ≤ i := hi
  change store (store (store (store (store (a.beginNode name).bytes (a.currOffset + 8) _)
    (a.currOffset + 272) _) (a.currOffset + 288) _) (a.currOffset + 280) _)
      (a.currOffset + fileNodeSize) data i = _
  rw [store_of_disjoint (.inr hi), store_of_disjoint (.inr ?_), store_of_disjoint (.inr ?_),
    store_of_disjoint (.inr ?_), store_of_disjoint (.inr ?_)]
  · exact beginNode_above hname (by omega)
  all_goals rw [length_leBytes]; omega

/-- The number and the offsets of the children are stored in front of them. -/
lemma closeFolder_above {i : ℕ} (hi : off + folderNodeSize offsets.length ≤ i) :
    (a.closeFolder off offsets).bytes i = a.bytes i := by
  rw [folderNodeSize] at hi
  rw [closeFolder_bytes, storeWords_of_disjoint (.inr (by omega)), store_of_disjoint (.inr ?_)]
  rw [length_leBytes]
  omega

/-- A folder is written inside of its place, when its children are. -/
lemma folderNode_contained {makeNode : List UInt8 → Arch → Except Halt (Arch × List ℕ)}
    {fullpath : List UInt8} {children : Listing} (hname : DirName name)
    (hres : host.resolve fullpath = some res) (hp : Presents host fullpath res 0 children)
    (hsmall : folderNodeSize children.count < 2 ^ 32)
    (hmake : ∀ a₁ a₂ offsets, a₁.currOffset = a.currOffset + folderNodeSize children.count →
      makeNode fullpath a₁ = .ok (a₂, offsets) →
      offsets.length = children.count ∧ a₁.currOffset ≤ a₂.currOffset ∧ Contained a₁ a₂)
    (h : folderNode host fuel makeNode fullpath (a.beginNode name) = .ok a') : Contained a a' := by
  rw [folderNode, bind_eq_ok] at h
  obtain ⟨nc, hcount, h⟩ := h
  obtain rfl := childcnt_ok hres hp hcount
  obtain ⟨a₁, hinc, h⟩ := bind_eq_ok.mp h
  obtain ⟨⟨a₂, offsets⟩, hsub, hret⟩ := bind_eq_ok.mp h
  obtain rfl := Except.ok.inj hret
  obtain ⟨rfl, -⟩ := incOffset_ok hinc
  rw [wrap32_of_lt hsmall] at hsub
  obtain ⟨hlength, hle, hcontained⟩ := hmake _ _ _ rfl hsub
  have hle : a.currOffset + folderNodeSize children.count ≤ a₂.currOffset := hle
  intro i hi
  have hi : a₂.currOffset ≤ i := hi
  have hnode : 288 ≤ folderNodeSize children.count := Nat.le_add_right _ _
  have hclose : (a₂.closeFolder a.currOffset offsets).bytes i = a₂.bytes i :=
    closeFolder_above (by rw [hlength]; omega)
  refine hclose.trans ((hcontained i hi).trans ?_)
  change store (store (a.beginNode name).bytes (a.currOffset + 8) _) (a.currOffset + 272) _ i = _
  rw [store_of_disjoint (.inr ?_), store_of_disjoint (.inr ?_)]
  · exact beginNode_above hname (by omega)
  all_goals rw [length_leBytes]; omega

/-- **`make_node` stores nothing behind its last node.** -/
lemma nodeLoop_contained (hp : Presents host path res idx l) (hnames : l.Named)
    (hsmall : a.currOffset + l.size < 2 ^ 32)
    (h : nodeLoop host fuel path res nc idx a = .ok (a', offsets)) : Contained a a' := by
  induction fuel generalizing path res nc idx l a a' offsets with
  | zero => cases h
  | succ fuel ih =>
    rw [nodeLoop] at h
    cases l with
    | nil =>
      rw [show host.dirAt res idx = none from hp] at h
      obtain ⟨rfl, -⟩ := Prod.mk.inj (Except.ok.inj h)
      exact fun _ _ => rfl
    | file name data rest =>
      obtain ⟨hdir, hopen, hrest⟩ := hp
      obtain ⟨hname, hnames⟩ := hnames
      rw [hdir] at h
      dsimp only at h
      obtain ⟨fullpath, hjoin, h⟩ := bind_eq_ok.mp h
      obtain ⟨rfl, -⟩ := joinPath_ok hjoin
      split_ifs at h with hroom
      obtain ⟨a₁, hentry, h⟩ := bind_eq_ok.mp h
      obtain ⟨⟨a₂, offs⟩, hloop, hret⟩ := bind_eq_ok.mp h
      obtain ⟨rfl, -⟩ := Prod.mk.inj (Except.ok.inj hret)
      have hcurr := (fileNode_written hopen hentry).currOffset
      rw [length_fileImage] at hcurr
      rw [Listing.size] at hsmall
      have hsmall : a₁.currOffset + rest.size < 2 ^ 32 := by omega
      have hnext := (nodeLoop_written hrest hsmall hloop).2.currOffset
      exact (fileNode_contained hname hopen hentry).trans (ih hrest hnames hsmall hloop)
        (hnext ▸ Nat.le_add_right _ _)
    | folder name children rest =>
      obtain ⟨hdir, ⟨res', hres', hchildren⟩, hrest⟩ := hp
      obtain ⟨hname, hnames', hnames⟩ := hnames
      rw [hdir] at h
      dsimp only at h
      obtain ⟨fullpath, hjoin, h⟩ := bind_eq_ok.mp h
      obtain ⟨rfl, -⟩ := joinPath_ok hjoin
      split_ifs at h with hroom
      obtain ⟨a₁, hentry, h⟩ := bind_eq_ok.mp h
      obtain ⟨⟨a₂, offs⟩, hloop, hret⟩ := bind_eq_ok.mp h
      obtain ⟨rfl, -⟩ := Prod.mk.inj (Except.ok.inj hret)
      rw [Listing.size] at hsmall
      -- what the inner call writes begins behind the node of the folder
      have hmake : ∀ b b' o, b.currOffset = a.currOffset + folderNodeSize children.count →
          makeNode host fuel (path ++ 0x2f :: name) b = .ok (b', o) →
          o = children.offsets b.currOffset ∧ Written b b' (children.image b.currOffset) :=
        fun b b' o hb hmade => makeNode_written hres' hchildren (by omega) hmade
      have hcurr := (folderNode_written hres' hchildren (by omega) hmake hentry).currOffset
      rw [length_folderImage, Listing.length_offsets, Listing.length_image] at hcurr
      have hsmall' : a₁.currOffset + rest.size < 2 ^ 32 := by omega
      have hnext := (nodeLoop_written hrest hsmall' hloop).2.currOffset
      refine Contained.trans ?_ (ih hrest hnames hsmall' hloop) (hnext ▸ Nat.le_add_right _ _)
      refine folderNode_contained hname hres' hchildren (by omega) (fun b b' o hb hmade => ?_)
        hentry
      obtain ⟨hoffsets, hwritten⟩ := hmake b b' o hb hmade
      refine ⟨by rw [hoffsets, Listing.length_offsets],
        hwritten.currOffset ▸ Nat.le_add_right _ _, ?_⟩
      rw [makeNodeWith] at hmade
      obtain ⟨nc', -, hmade⟩ := bind_eq_ok.mp hmade
      obtain ⟨res'', hresolve, hmade⟩ := bind_eq_ok.mp hmade
      obtain ⟨rfl, -⟩ := resolveInto_ok hres' hresolve
      exact ih hchildren hnames' (by omega) hmade

/-! ### No panic -/

/-- Resolving a path never runs into an assertion. -/
lemma resolveInto_ne_abort (hres : host.resolve path = some res) :
    resolveInto host path ≠ .error .abort := by
  rw [resolveInto, hres]
  dsimp only
  split_ifs <;> simp

/-- Joining two paths never runs into an assertion. -/
lemma joinPath_ne_abort (path name : List UInt8) : joinPath path name ≠ .error .abort := by
  rw [joinPath]
  split_ifs <;> simp

/-- Counting the entries of a directory never runs into an assertion. -/
lemma childcnt_ne_abort (hres : host.resolve path = some res) (hp : Presents host path res 0 l) :
    childcnt host fuel path ≠ .error .abort := by
  refine bind_ne_error (resolveInto_ne_abort hres) fun res' hresolve => ?_
  obtain ⟨rfl, -⟩ := resolveInto_ok hres hresolve
  rw [childcntFrom_eq hp]
  split_ifs <;> simp

/-- **`calculate_size` does not panic.** -/
lemma sizeLoop_ne_abort {size : ℕ} (hp : Presents host path res idx l) :
    sizeLoop host fuel path res idx size ≠ .error .abort := by
  induction fuel generalizing path res idx l size with
  | zero => simp [sizeLoop]
  | succ fuel ih =>
    rw [sizeLoop]
    cases l with
    | nil =>
      rw [show host.dirAt res idx = none from hp]
      simp
    | file name data rest =>
      obtain ⟨hdir, hopen, hrest⟩ := hp
      rw [hdir]
      refine bind_ne_error (joinPath_ne_abort _ _) fun fullpath hjoin => ?_
      obtain ⟨rfl, -⟩ := joinPath_ok hjoin
      refine bind_ne_error ?_ fun _ _ => ih hrest
      rw [entrySize, hopen]
      simp
    | folder name children rest =>
      obtain ⟨hdir, ⟨res', hres', hchildren⟩, hrest⟩ := hp
      rw [hdir]
      refine bind_ne_error (joinPath_ne_abort _ _) fun fullpath hjoin => ?_
      obtain ⟨rfl, -⟩ := joinPath_ok hjoin
      refine bind_ne_error ?_ fun _ _ => ih hrest
      refine bind_ne_error (childcnt_ne_abort hres' hchildren) fun n _ => ?_
      refine bind_ne_error ?_ fun _ _ => pure_ne_error _ _
      refine bind_ne_error (resolveInto_ne_abort hres') fun res'' hresolve => ?_
      obtain ⟨rfl, -⟩ := resolveInto_ok hres' hresolve
      exact ih hchildren

/-- With room for the file, `file_node` never runs into one. -/
lemma fileNode_ne_abort {fullpath data : List UInt8} (name : List UInt8)
    (hopen : host.fopen fullpath = some data)
    (hroom : a.currOffset + (fileNodeSize + data.length) ≤ a.allocSize) :
    fileNode host fullpath (a.beginNode name) ≠ .error .abort := by
  obtain ⟨a', h⟩ := fileNode_returns name hopen hroom
  rw [h]
  simp

/-- With room for the folder, `folder_node` never runs into one, when its children do not. -/
lemma folderNode_ne_abort {makeNode : List UInt8 → Arch → Except Halt (Arch × List ℕ)}
    {fullpath : List UInt8} (name : List UInt8)
    (hcount : childcnt host fuel fullpath ≠ .error .abort)
    (hnc : ∀ nc, childcnt host fuel fullpath = .ok nc → nc = n)
    (hsmall : folderNodeSize n < 2 ^ 32) (hroom : a.currOffset + folderNodeSize n ≤ a.allocSize)
    (hmake : ∀ a₁ : Arch, a₁.currOffset = a.currOffset + folderNodeSize n →
      a₁.allocSize = a.allocSize → makeNode fullpath a₁ ≠ .error .abort) :
    folderNode host fuel makeNode fullpath (a.beginNode name) ≠ .error .abort := by
  refine bind_ne_error hcount fun nc hcnt => ?_
  obtain rfl := hnc nc hcnt
  refine bind_ne_error ?_ fun a₁ hinc => ?_
  · rw [wrap32_of_lt hsmall, incOffset_fits (a := a.beginNode name) hroom]
    simp
  · obtain ⟨rfl, -⟩ := incOffset_ok hinc
    rw [wrap32_of_lt hsmall]
    exact bind_ne_error (hmake _ rfl rfl) fun _ _ => pure_ne_error _ _

/-- **`inc_offset` does not panic** where there is room for the nodes. -/
lemma nodeLoop_ne_abort (hp : Presents host path res idx l)
    (hsmall : a.currOffset + l.size < 2 ^ 32) (hroom : a.currOffset + l.size ≤ a.allocSize) :
    nodeLoop host fuel path res nc idx a ≠ .error .abort := by
  induction fuel generalizing path res nc idx l a with
  | zero => simp [nodeLoop]
  | succ fuel ih =>
    rw [nodeLoop]
    cases l with
    | nil =>
      rw [show host.dirAt res idx = none from hp]
      simp
    | file name data rest =>
      obtain ⟨hdir, hopen, hrest⟩ := hp
      rw [Listing.size] at hsmall hroom
      rw [hdir]
      refine bind_ne_error (joinPath_ne_abort _ _) fun fullpath hjoin => ?_
      obtain ⟨rfl, -⟩ := joinPath_ok hjoin
      split_ifs with hnc
      · simp
      refine bind_ne_error (fileNode_ne_abort name hopen (by omega)) fun a₁ hentry => ?_
      have hfile := fileNode_written hopen hentry
      have hcurr := hfile.currOffset
      have halloc := hfile.allocSize
      rw [length_fileImage] at hcurr
      exact bind_ne_error (ih hrest (by omega) (by omega)) fun _ _ => pure_ne_error _ _
    | folder name children rest =>
      obtain ⟨hdir, ⟨res', hres', hchildren⟩, hrest⟩ := hp
      rw [Listing.size] at hsmall hroom
      rw [hdir]
      refine bind_ne_error (joinPath_ne_abort _ _) fun fullpath hjoin => ?_
      obtain ⟨rfl, -⟩ := joinPath_ok hjoin
      split_ifs with hnc
      · simp
      refine bind_ne_error ?_ fun a₁ hentry => ?_
      · refine folderNode_ne_abort name (childcnt_ne_abort hres' hchildren)
          (fun nc => childcnt_ok hres' hchildren) (by omega) (by omega) fun b hcurr halloc => ?_
        refine bind_ne_error (childcnt_ne_abort hres' hchildren) fun n _ => ?_
        refine bind_ne_error (resolveInto_ne_abort hres') fun res'' hresolve => ?_
        obtain ⟨rfl, -⟩ := resolveInto_ok hres' hresolve
        exact ih hchildren (by omega) (by omega)
      have hfolder := folderNode_written hres' hchildren (by omega)
        (fun _ _ _ hb hmade => makeNode_written hres' hchildren (by omega) hmade) hentry
      have hcurr := hfolder.currOffset
      have halloc := hfolder.allocSize
      rw [length_folderImage, Listing.length_offsets, Listing.length_image] at hcurr
      exact bind_ne_error (ih hrest (by omega) (by omega)) fun _ _ => pure_ne_error _ _

/-! ### The size that is allocated -/

/-- The archive with the header of its root, before `make_node`. -/
def rootArch (l : Listing) (m : ℕ → UInt8) : Arch :=
  ((⟨fun i => if i < (archive l).length then 0 else m i, folderNodeSize l.count,
    (archive l).length⟩ : Arch).store 0 (leBytes 8 magicNumber)).store 8
      (leBytes 8 (folderNodeSize l.count)) |>.store 272 (leBytes 8 flagIsfolder)

/-- The header of the root is in front of what is behind the archive. -/
lemma rootArch_above {i : ℕ} (hi : (archive l).length ≤ i) : (rootArch l m).bytes i = m i := by
  have hle : 288 ≤ (archive l).length := by
    rw [length_archive, folderNodeSize]
    omega
  change store (store (store (fun i => if i < (archive l).length then 0 else m i) 0 _) 8 _) 272 _
    i = _
  rw [store_of_disjoint (.inr ?_), store_of_disjoint (.inr ?_), store_of_disjoint (.inr ?_)]
  · exact if_neg (not_lt.mpr hi)
  all_goals rw [length_leBytes]; omega

/-- **`main` allocates the size of the archive** and begins its root, and calls `make_node`. -/
lemma mainArch_eq_ok (hp : PresentsTree host input l) (hsmall : (archive l).length < 2 ^ 32)
    (h : mainArch host fuel input m = .ok a) : ∃ a' offsets,
      makeNode host fuel input (rootArch l m) = .ok (a', offsets) ∧
        a = a'.closeFolder 0 offsets := by
  have hsize := length_archive l
  rw [mainArch, bind_eq_ok] at h
  obtain ⟨size, hcalc, h⟩ := h
  obtain ⟨rfl, -⟩ := calculateSize_eq hp (by omega) hcalc
  obtain ⟨res, hres, hp⟩ := hp
  obtain ⟨nc, hcount, h⟩ := bind_eq_ok.mp h
  obtain rfl := childcnt_ok hres hp hcount
  rw [hcount, ok_bind] at h
  dsimp only at h
  rw [wrap32_of_lt (show folderNodeSize l.count < 2 ^ 32 by omega),
    wrap32_of_lt (show l.size + folderNodeSize l.count < 2 ^ 32 by omega), Nat.add_comm l.size,
    ← hsize] at h
  obtain ⟨a₁, hinc, h⟩ := bind_eq_ok.mp h
  obtain ⟨rfl, -⟩ := incOffset_ok hinc
  obtain ⟨⟨a₂, offsets⟩, hmake, hret⟩ := bind_eq_ok.mp h
  refine ⟨a₂, offsets, ?_, (Except.ok.inj hret).symm⟩
  rw [Nat.zero_add] at hmake
  exact hmake

/-- **`make_node` of the root** ends where the archive does. -/
lemma makeNode_root (hp : PresentsTree host input l) (hnames : l.Named)
    (hsmall : (archive l).length < 2 ^ 32)
    (h : makeNode host fuel input (rootArch l m) = .ok (a, offsets)) :
    offsets.length = l.count ∧ a.currOffset = (archive l).length ∧
      a.allocSize = (archive l).length ∧ Contained (rootArch l m) a := by
  have hsize := length_archive l
  have hroot : (rootArch l m).currOffset + l.size = (archive l).length := hsize.symm
  obtain ⟨res, hres, hp⟩ := hp
  obtain ⟨hoffsets, hwritten⟩ := makeNode_written hres hp (hroot.trans_lt hsmall) h
  refine ⟨by rw [hoffsets, Listing.length_offsets], ?_, hwritten.allocSize, ?_⟩
  · rw [hwritten.currOffset, Listing.length_image, hroot]
  · rw [makeNode, makeNodeWith] at h
    obtain ⟨nc, -, h⟩ := bind_eq_ok.mp h
    obtain ⟨res', hresolve, h⟩ := bind_eq_ok.mp h
    obtain ⟨rfl, -⟩ := resolveInto_ok hres hresolve
    exact nodeLoop_contained hp hnames (hroot.trans_lt hsmall) h

/-- **`main` does not panic.** -/
lemma mainArch_ne_abort (hp : PresentsTree host input l) (hsmall : (archive l).length < 2 ^ 32) :
    mainArch host fuel input m ≠ .error .abort := by
  have hsize := length_archive l
  have hp' := hp
  obtain ⟨res, hres, hp⟩ := hp
  refine bind_ne_error ?_ fun size hcalc => ?_
  · refine bind_ne_error (resolveInto_ne_abort hres) fun res' hresolve => ?_
    obtain ⟨rfl, -⟩ := resolveInto_ok hres hresolve
    exact sizeLoop_ne_abort hp
  obtain ⟨rfl, -⟩ := calculateSize_eq hp' (by omega) hcalc
  refine bind_ne_error (childcnt_ne_abort hres hp) fun nc hcount => ?_
  obtain rfl := childcnt_ok hres hp hcount
  refine bind_ne_error (childcnt_ne_abort hres hp) fun nc hcount => ?_
  obtain rfl := childcnt_ok hres hp hcount
  rw [wrap32_of_lt (show folderNodeSize l.count < 2 ^ 32 by omega),
    wrap32_of_lt (show l.size + folderNodeSize l.count < 2 ^ 32 by omega)]
  refine bind_ne_error ?_ fun a hinc => bind_ne_error ?_ fun _ _ => nofun
  · rw [incOffset_fits (show 0 + folderNodeSize l.count ≤ l.size + folderNodeSize l.count by omega)]
    exact nofun
  · obtain ⟨rfl, -⟩ := incOffset_ok hinc
    refine bind_ne_error (childcnt_ne_abort hres hp) fun nc _ => ?_
    refine bind_ne_error (resolveInto_ne_abort hres) fun res' hresolve => ?_
    obtain ⟨rfl, -⟩ := resolveInto_ok hres hresolve
    refine nodeLoop_ne_abort hp ?_ ?_
    · change 0 + folderNodeSize l.count + l.size < 2 ^ 32
      omega
    · change 0 + folderNodeSize l.count + l.size ≤ l.size + folderNodeSize l.count
      omega

/-- **`saf-make` allocates what it writes**: it does not panic, and the archive of the tree ends
where `alloc_needed` says, with nothing stored behind it. -/
theorem saf_make_allocates (hp : PresentsTree host input l) (hnames : l.Named)
    (hsmall : (archive l).length < 2 ^ 31) (m : ℕ → UInt8) :
    (∀ fuel, mainArch host fuel input m ≠ .error .abort) ∧
    (FitsTree host input l → ∃ a, mainArch host l.fuel input m = .ok a) ∧
    ∀ fuel a, mainArch host fuel input m = .ok a →
      a.currOffset = a.allocSize ∧ a.allocSize = (archive l).length ∧
        ∀ i, a.allocSize ≤ i → a.bytes i = m i := by
  have hsmall : (archive l).length < 2 ^ 32 := hsmall.trans (by norm_num)
  refine ⟨fun fuel => mainArch_ne_abort hp hsmall, fun hfits => mainArch_returns hp hsmall hfits m,
    fun fuel a h => ?_⟩
  obtain ⟨a', offsets, hmake, rfl⟩ := mainArch_eq_ok hp hsmall h
  obtain ⟨hlength, hcurr, halloc, hcontained⟩ := makeNode_root hp hnames hsmall hmake
  refine ⟨hcurr.trans halloc.symm, halloc, fun i hi => ?_⟩
  have hi : (archive l).length ≤ i := halloc ▸ hi
  have hnode : 0 + folderNodeSize offsets.length ≤ i := by
    rw [hlength]
    rw [length_archive] at hi
    omega
  calc (a'.closeFolder 0 offsets).bytes i
      = a'.bytes i := closeFolder_above hnode
    _ = (rootArch l m).bytes i := hcontained i (hcurr ▸ hi)
    _ = m i := rootArch_above hi

/-- The archive of one file fills what is allocated, and nothing behind it is written. -/
theorem saf_make_allocates_file : ∃ host a, mainArch host 2 [] (fun _ => 1) = .ok a ∧
    a.currOffset = a.allocSize ∧ a.bytes a.allocSize = 1 := by
  let host : SafHost := ⟨fun path => some path,
    fun _ idx => if idx = 0 then some ([0x61], .file) else none, fun _ => some [0x62]⟩
  have hp : PresentsTree host [] (.file [0x61] [0x62] .nil) := ⟨[], rfl, rfl, rfl, rfl⟩
  have hnames : (Listing.file [0x61] [0x62] .nil).Named :=
    ⟨⟨List.cons_ne_nil _ _, by norm_num, by decide⟩, trivial⟩
  have hsmall : (archive (.file [0x61] [0x62] .nil)).length < 2 ^ 31 := by
    rw [length_archive]
    decide
  have hfits : FitsTree host [] (.file [0x61] [0x62] .nil) := by
    refine ⟨fun res hres => ?_, by decide, trivial⟩
    obtain rfl := Option.some.inj hres
    decide
  obtain ⟨-, hreturns, hends⟩ := saf_make_allocates hp hnames hsmall fun _ => 1
  obtain ⟨a, ha⟩ := hreturns hfits
  obtain ⟨hcurr, -, habove⟩ := hends _ a ha
  exact ⟨host, a, ha, hcurr, habove _ le_rfl⟩

end MicroOS
