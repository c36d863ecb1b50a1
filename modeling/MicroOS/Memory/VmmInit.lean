import MicroOS.Memory.PmmRun
import MicroOS.Memory.VmmCreate

/-!
The start of the virtual memory manager.

* `Booted`: the state that `vmm_init` leaves: the invariant holds, no task is active, and the
  kernel maps nothing for users.
* `Booted.mapPage`: mappings of the kernel without the user flag keep it.
* `vmmInit_booted`: every `vmm_init` that returns, after any `pmm_init`, leaves such a state.
-/

namespace MicroOS

open ByteMem Checked PageEntry

variable {lo : ℕ} {k k' : Kernel}

/-- The kernel maps no page for users. -/
def Kernel.NoUser (k : Kernel) : Prop := ∀ i j x, k.Maps none i j x → x &&& pteUser = 0

/-- An entry of the kernel's tables has the flags it was written with. -/
lemma not_user_of_flags {phys flags : ℕ} (hphys : 0x1000 ∣ phys) (hflags : flags &&& pteUser = 0) :
    (phys ||| flags) &&& pteUser = 0 := by
  rw [or_and_flag hphys (by norm_num [pteUser]), hflags]

/-- **The state after `vmm_init`.** -/
structure Booted (lo : ℕ) (k : Kernel) : Prop where
  inv : VmmInv lo k
  idle : ∀ t, (k.tasks t).active = false
  noUser : k.NoUser

namespace Booted

/-- A mapping of the kernel. -/
lemma mapPage {virt phys flags : ℕ} (hb : Booted lo k) (hv : virt < 2 ^ 32)
    (hflags : flags < 0x1000) (huser : flags &&& pteUser = 0)
    (h : mapPage k k.kernelContext virt phys flags = .ok k') : Booted lo k' := by
  obtain ⟨hgrow, hmaps⟩ := KernelGrows.of_mapPage hb.inv hv hflags h
  refine ⟨hgrow.inv, fun t => ?_, fun i j x hm => ?_⟩
  · rw [hgrow.tasks]
    exact hb.idle t
  · rcases hmaps i j x hm with hm | ⟨hphys, rfl⟩
    · exact hb.noUser i j x hm
    · exact not_user_of_flags hphys huser

/-- A range mapped to itself. -/
lemma identityMap {fuel start endAddr flags : ℕ} (hb : Booted lo k) (hstart : start < 2 ^ 32)
    (hflags : flags < 0x1000) (huser : flags &&& pteUser = 0)
    (h : vmmIdentityMap fuel start endAddr flags k = .ok k') : Booted lo k' := by
  rw [vmmIdentityMap, bind_eq_ok] at h
  obtain ⟨⟨a, q⟩, hloop, hret⟩ := h
  obtain rfl : q = k' := Except.ok.inj hret
  have hturn : ∀ s s' : ℕ × Kernel, (s.1 < 2 ^ 32 ∧ Booted lo s.2) →
      decide (s.1 < endAddr) = true →
      (do return (wrap32 (s.1 + 0x1000), ← MicroOS.mapPage s.2 s.2.kernelContext s.1 s.1 flags))
        = Except.ok s' → s'.1 < 2 ^ 32 ∧ Booted lo s'.2 := by
    rintro ⟨b, q⟩ s' ⟨hlt, hq⟩ _ hbody
    obtain ⟨q', hmap, heq⟩ := bind_eq_ok.mp hbody
    obtain rfl := Except.ok.inj heq
    exact ⟨wrap32_lt _, hq.mapPage hlt hflags huser hmap⟩
  exact (repeatWhile_rule _ hturn ⟨hstart, hb⟩ hloop).1.2

/-- A frame that is marked as used. -/
lemma markUsed {page : ℕ} {pmm : Pmm} (hb : Booted lo k) (hpage : page < 2 ^ 32)
    (h : pmmMarkUsed k.pmm page = .ok pmm) : Booted lo { k with pmm } := by
  obtain ⟨q, hq, hbec⟩ := pmmMarkUsed_ok (p := k.pmm) hpage
  obtain rfl : q = pmm := Except.ok.inj (hq.symm.trans h)
  exact ⟨hb.inv.of_becomes hbec, hb.idle, fun i j x hm =>
    hb.noUser i j x ((maps_pmm q none i j x).mp hm)⟩

end Booted

/-- The first context, before anything is mapped in it. -/
lemma kernelContext_booted {c : ℕ} (hg : k.pmm.Guarded lo)
    (hidle : ∀ t, (k.tasks t).active = false) (h : vmmCreateContext k = .ok (k', c)) :
    Booted lo { k' with kernelContext := c }
      ∧ ∀ i, ¬ ({ k' with kernelContext := c } : Kernel).HasTable none i := by
  obtain ⟨d, pmm, rfl, hcd, hc, hd, _, _, hb⟩ := vmmCreateContext_ok h
  set q : Kernel := { { k with pmm, mem := (k.mem.set c 0 d).clear d } with kernelContext := c }
    with hq
  have hroot : ∀ s c', q.Root s c' → s = none ∧ c' = c := by
    intro s c' hr
    cases s with
    | none => exact ⟨rfl, hr⟩
    | some t =>
      have hact : (k.tasks t).active = true := hr.1
      simp [hidle t] at hact
  have hdir : q.pagedir c = d := by
    change ((k.mem.set c 0 d).clear d) c 0 = d
    rw [PageMem.clear_of_ne _ _ hcd, PageMem.set_apply, if_pos ⟨rfl, rfl⟩]
  -- the directory is cleared, so that the first context has no table
  have hempty : ∀ i, ¬ Present (q.entry c i) := by
    intro i
    rw [Kernel.entry, hdir]
    change ¬ Present (((k.mem.set c 0 d).clear d) d i)
    rw [PageMem.clear_self]
    exact not_present_zero
  have hnone : ∀ s i p, ¬ q.Owns (.table s i) p := by
    intro s i p hp
    cases hp with
    | table root lt present own =>
      rw [(hroot _ _ root).2] at present
      exact hempty i present
  have howns : ∀ o p, q.Owns o p → (o = .context none ∧ p = c) ∨ (o = .dir none ∧ p = d) := by
    intro o p hp
    cases hp with
    | context root =>
      obtain ⟨rfl, rfl⟩ := hroot _ _ root
      exact Or.inl ⟨rfl, rfl⟩
    | dir root =>
      obtain ⟨rfl, rfl⟩ := hroot _ _ root
      exact Or.inr ⟨rfl, hdir⟩
    | table root lt present own =>
      exact absurd (.table root lt present own) (hnone _ _ _)
  refine ⟨⟨⟨hg.of_becomes hb, fun o p hp => ?_, fun o o' p hp hp' => ?_, fun t ht => ?_⟩, hidle,
    fun i j x hm => ?_⟩, fun i hi => ?_⟩
  · rcases howns o p hp with ⟨_, rfl⟩ | ⟨_, rfl⟩
    · exact hc
    · exact hd
  · rcases howns o p hp with ⟨rfl, rfl⟩ | ⟨rfl, rfl⟩ <;>
      rcases howns o' p hp' with ⟨rfl, hp⟩ | ⟨rfl, hp⟩
    · rfl
    · exact absurd hp hcd
    · exact absurd hp.symm hcd
    · rfl
  · have hact : (k.tasks t).active = true := ht
    simp [hidle t] at hact
  · obtain ⟨p, hp, _⟩ := hm
    exact absurd hp (hnone _ _ _)
  · obtain ⟨p, hp⟩ := hi
    exact hnone _ _ _ hp

/-- **`vmm_init` establishes the invariant.** -/
theorem vmmInit_booted {fuel : ℕ} {L : KernelLayout} {mb : MultibootInfo} {pmm : Pmm}
    (hg : pmm.Guarded lo) (h : vmmInit fuel L mb pmm = .ok k) : Booted lo k := by
  have hfits := L.fits
  rw [vmmInit] at h
  obtain ⟨⟨k₀, context⟩, h0, h⟩ := bind_eq_ok.mp h
  obtain ⟨k₁, h1, h⟩ := bind_eq_ok.mp h
  obtain ⟨k₂, h2, h⟩ := bind_eq_ok.mp h
  obtain ⟨k₃, h3, h⟩ := bind_eq_ok.mp h
  obtain ⟨pmm₄, h4, h⟩ := bind_eq_ok.mp h
  obtain ⟨k₅, h5, h⟩ := bind_eq_ok.mp h
  obtain ⟨k₆, h6, h⟩ := bind_eq_ok.mp h
  obtain ⟨k₇, h7, h⟩ := bind_eq_ok.mp h
  have hb₀ := (kernelContext_booted hg (fun _ => rfl) h0).1
  have hb₁ := hb₀.identityMap (by norm_num [KernelLayout.kernelStart]) (by decide) (by decide) h1
  have hb₂ := hb₁.identityMap (lt_of_le_of_lt (Nat.le_add_right _ _) hfits) (by decide)
    (by decide) h2
  have hb₃ := hb₂.mapPage (by norm_num) (by decide) (by decide) h3
  have hb₄ := hb₃.markUsed (by norm_num) h4
  have hb₅ := hb₄.mapPage mb.addr.toNat_lt (by decide) (by decide) h5
  have hb₆ := hb₅.mapPage mb.modsAddr.toNat_lt (by decide) (by decide) h6
  have hb₇ := foldlM_rule (Booted lo)
    (fun q m q' _ hq hq' => hq.identityMap m.modStart.toNat_lt (by decide) (by decide) hq') hb₆ h7
  exact hb₇.mapPage (by norm_num) (by decide) (by decide) h

end MicroOS
