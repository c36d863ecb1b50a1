import MicroOS.Memory.VmmRun

/-!
The system call `sys_mmap`.

* `sysMmap_effect`: a call that returns took the first free frame, and mapped it unless the address
  lies inside a page.
* `KernelInv.sysMmap`: it keeps the invariant of the kernel.
* `Ready.sysMmap`: it returns where there is memory and the slot is not the kernel's.
-/

namespace MicroOS

open ByteMem Checked PageEntry

variable {lo : ℕ} {k k' : Kernel} {ebx : ℕ}

/-- **`sys_mmap`** takes the first frame that is free, and maps it at an address that starts a
page. -/
theorem sysMmap_effect (hi : VmmInv lo k) (hact : (k.tasks k.currentTask).active = true)
    (hv : ebx < 2 ^ 32) (h : sysMmap k ebx = .ok k') :
    ∃ f pmm, f < frameCount ∧ k.pmm.Fits false f ∧ (∀ g < f, ¬ k.pmm.Fits false g)
      ∧ (k.pmm.Becomes pmm fun g => g = f ∨ k.pmm.Used g) ∧ VmmInv lo { k with pmm }
      ∧ ((ebx % 0x1000 ≠ 0 ∧ k' = { k with pmm })
        ∨ (ebx % 0x1000 = 0 ∧ k.OwnSlot (some k.currentTask) (pdIndexOf ebx)
          ∧ ∃ fresh, MapEffect lo { k with pmm } (some k.currentTask) (pdIndexOf ebx)
            (ptIndexOf ebx) (f * 0x1000 ||| userFlags) fresh k')) := by
  rw [sysMmap, bind_eq_ok] at h
  obtain ⟨⟨pmm, page⟩, halloc, hmap⟩ := h
  rcases allocFrame_spec k.pmm false with ⟨ha, -⟩ | ⟨f, q, ha, hf, hfit, hfirst, hb⟩
  · cases ha.symm.trans halloc
  obtain ⟨rfl, rfl⟩ := Prod.mk.inj (Except.ok.inj (ha.symm.trans halloc))
  have hi' : VmmInv lo { k with pmm := q } := hi.of_becomes hb
  have hroot : ({ k with pmm := q } : Kernel).Root (some k.currentTask)
      (k.tasks k.currentTask).context := ⟨hact, rfl⟩
  refine ⟨f, q, hf, hfit, hfirst, hb, hi', ?_⟩
  have hphys : f * 0x1000 % 0x1000 = 0 := Nat.mul_mod_left f 0x1000
  rcases mapPage_effect hi' hroot hv (by decide) hmap with ⟨hno, rfl⟩ | ⟨hal, hown, heff⟩
  · exact Or.inl ⟨fun hc => hno ⟨hc, hphys⟩, rfl⟩
  · exact Or.inr ⟨hal.1, hown, heff⟩

/-- A frame that `pmm_alloc` hands out may be mapped. -/
lemma Pmm.Fits.mappable {p : Pmm} {f : ℕ} (hg : p.Guarded lo) (h : p.Fits false f) :
    Mappable lo f := by
  obtain ⟨hu, hp⟩ := h
  refine ⟨fun hc => ?_, ?_, ?_⟩
  · simpa using hp.mp ((hg.pool f).mpr hc)
  · rintro rfl
    exact hu hg.below
  · rintro rfl
    exact hu hg.last

/-- `sys_mmap` keeps the invariant of the kernel. -/
lemma KernelInv.sysMmap (hi : KernelInv lo k) (hact : (k.tasks k.currentTask).active = true)
    (hv : ebx < 2 ^ 32) (h : sysMmap k ebx = .ok k') : KernelInv lo k' := by
  obtain ⟨f, pmm, hf, hfit, -, hb, hi', hcases⟩ := sysMmap_effect hi.vmm hact hv h
  rcases hcases with ⟨-, rfl⟩ | ⟨-, -, fresh, he⟩
  · exact ⟨hi', hi.low, hi.tasks.of_pmm pmm⟩
  · refine ⟨he.inv, hi.low, (hi.tasks.of_pmm pmm).of_effect he ?_⟩
    rw [base_frame hf (by decide)]
    exact hfit.mappable hi.vmm.guarded

/-- `sys_mmap` returns, and takes at most one page of the pool. -/
lemma Ready.sysMmap (ebx : ℕ) {S : Finset ℕ} {top pages frames : ℕ}
    (h : Ready lo S top (pages + 1) (1 + frames) k) (hact : (k.tasks k.currentTask).active = true)
    (hv : ebx < 2 ^ 32) (hS : pdIndexOf ebx ∉ S) :
    ∃ k', MicroOS.sysMmap k ebx = .ok k' ∧ SameTasks k k' ∧ Ready lo S top pages frames k' := by
  obtain ⟨g, hg, hlow, htop⟩ := h.run
  obtain ⟨hgu, hgp⟩ := hg.free g le_rfl (by omega)
  have hgfit : k.pmm.Fits false g := ⟨hgu, by simpa using hgp⟩
  have hgf : g < frameCount := by
    have := hg.room
    omega
  rcases allocFrame_spec k.pmm false with ⟨-, hno⟩ | ⟨f, q, ha, hf, hfit, hfirst, hb⟩
  · exact absurd hgfit (hno g hgf)
  have hfg : f ≤ g := not_lt.mp fun hlt => hfirst g hlt hgfit
  have hready : Ready lo S top (pages + 1) frames { k with pmm := q } := by
    refine h.congr (h.inv.of_becomes hb) (fun i => exists_congr fun p => owns_pmm q _ p)
      (fun j hj => hj.of_keep hb.mask fun i hu => ?_) ⟨g + 1, ⟨?_, fun i h1 h2 => ?_⟩, ?_, ?_⟩
    · rcases (hb.used i).mp hu with rfl | hu
      · exact Or.inr fun hp => by simpa using hfit.2.mp hp
      · exact Or.inl hu
    · have := hg.room
      omega
    · obtain ⟨hu, hp⟩ := hg.free i (by omega) (by omega)
      refine ⟨fun hu' => ?_, fun hp' => hp ((hb.pool i).mp hp')⟩
      rcases (hb.used i).mp hu' with rfl | hu'
      · omega
      · exact hu hu'
    · omega
    · omega
  obtain ⟨k', hmap, hsame, hk'⟩ := hready.mapTask (t := k.currentTask) ebx (f * 0x1000) userFlags
    hact hv (by decide) hS
  exact ⟨k', bind_eq_ok.mpr ⟨_, ha, hmap⟩, ⟨hsame.tasks, hsame.currentTask, hsame.currentPid⟩, hk'⟩

end MicroOS
