import MicroOS.Lib.Lookup
import MicroOS.Utils.String

/-!
Paths, as the file systems take them apart, and directory entries, as they report them.

* `DirT`, `DirName`: what `dir_at` returns, and a name that it can return;
* `components`: the names in a path; `nextName`: how a driver takes the first of them off;
* `components_eq`: these agree;
* `ShortName`: a name that the buffers of the drivers hold;
* `find_of_turn`: a driver that looks up one name in each turn looks up the names of the path.
-/

namespace MicroOS

open ByteMem

/-! ### What the drivers share -/

/-- `enum dir_entry_type_e`. -/
inductive EntryType where
  | file
  | dir

/-- `dir_t`. -/
structure DirT where
  name : List UInt8
  idx : ℕ
  isNone : Bool
  type : EntryType

/-- `{ .is_none = true }`. -/
def DirT.none : DirT := ⟨[], 0, true, .file⟩

/-- A name that `dir_t` can have, with the zero behind it. -/
structure DirName (name : List UInt8) : Prop where
  ne_nil : name ≠ []
  length_lt : name.length < 256
  no_zero : 0 ∉ name

/-- Memory behind a pointer. -/
def view (m : Mem) (p : ℕ) : ℕ → UInt8 := fun i => m (wrap32 (p + i))

/-- The names in a path, between its slashes. -/
def components (path : List UInt8) : List (List UInt8) := (path.splitOn 0x2f).filter (· ≠ [])

/-- The slashes in front are skipped and a name is copied, if there is one: `buffer` and `next`. -/
def nextName (path : List UInt8) : Option (List UInt8 × List UInt8) :=
  match path.dropWhile (· = 0x2f) with
  | [] => none
  | c :: rest => some (copyUntil 0x2f (c :: rest))

/-- What is left behind a separator is shorter than what was there. -/
lemma copyUntil_lt (c b : UInt8) (src : List UInt8) :
    (copyUntil c (b :: src)).2.length < (b :: src).length := by
  induction src generalizing b with
  | nil =>
    rw [copyUntil]
    split_ifs <;> simp [copyUntil]
  | cons d src ih =>
    rw [copyUntil]
    split_ifs
    · simp
    · exact (ih d).trans (by simp)

/-- What is left of a path is shorter. -/
lemma nextName_lt {path buffer next : List UInt8} (h : nextName path = some (buffer, next)) :
    next.length < path.length := by
  have hle := (List.dropWhile_suffix (l := path) (· = 0x2f)).length_le
  rw [nextName] at h
  split at h
  · cases h
  · rename_i c rest hdrop
    rw [hdrop] at hle
    have hlt := copyUntil_lt 0x2f c rest
    rw [Option.some.inj h] at hlt
    exact hlt.trans_le hle

/-! ### The names of a path -/

variable {path buffer : List UInt8}

/-- A slash in front of a path changes nothing. -/
lemma components_slash (path : List UInt8) : components (0x2f :: path) = components path := by
  rw [components, components, List.splitOn, List.splitOn,
    List.splitOnP_cons_eq_if_modifyHead]
  simp

/-- The names of a path in front of a slash, and behind it. -/
lemma components_append (a b : List UInt8) :
    components (a ++ 0x2f :: b) = components a ++ components b := by
  rw [components, components, components, List.splitOn_append_cons_self, List.filter_append]

/-- A name without a slash is its only component. -/
lemma components_of_notMem {name : List UInt8} (h : 0x2f ∉ name) (hne : name ≠ []) :
    components name = [name] := by
  rw [components, List.splitOn_eq_singleton h, List.filter_cons_of_pos (by simpa using hne),
    List.filter_nil]

/-- Slashes at the start do not count. -/
lemma components_dropWhile (path : List UInt8) :
    components (path.dropWhile (· = 0x2f)) = components path := by
  induction path with
  | nil => rfl
  | cons c path ih =>
    rw [List.dropWhile_cons]
    split_ifs with hc
    · rw [ih, of_decide_eq_true hc, components_slash]
    · rfl

/-- `copy_until` splits the path at its first slash. -/
lemma splitOn_copyUntil (path : List UInt8) :
    ∃ rest, path.splitOn 0x2f = (copyUntil 0x2f path).1 :: rest ∧
      rest.filter (· ≠ []) = components (copyUntil 0x2f path).2 := by
  induction path with
  | nil => exact ⟨[], rfl, rfl⟩
  | cons c path ih =>
    obtain ⟨rest, hsplit, hrest⟩ := ih
    rw [List.splitOn] at hsplit
    rw [copyUntil, List.splitOn, List.splitOnP_cons_eq_if_modifyHead]
    split_ifs with hc hslash hslash
    · exact ⟨_, rfl, rfl⟩
    · exact absurd (beq_iff_eq.mp hc) hslash
    · exact absurd (beq_iff_eq.mpr hslash) hc
    · rw [hsplit]
      exact ⟨rest, rfl, hrest⟩

/-- **The first name of a path**, and the path behind it. -/
lemma components_copyUntil {c : UInt8} {rest : List UInt8} (hc : c ≠ 0x2f) :
    components (c :: rest) =
      (copyUntil 0x2f (c :: rest)).1 :: components (copyUntil 0x2f (c :: rest)).2 := by
  obtain ⟨tail, hsplit, htail⟩ := splitOn_copyUntil (c :: rest)
  have hne : (copyUntil 0x2f (c :: rest)).1 ≠ [] := by
    rw [copyUntil, if_neg hc]
    exact List.cons_ne_nil _ _
  rw [components, hsplit, List.filter_cons_of_pos (by simpa using hne), htail]

/-- A cut makes no new bytes. -/
lemma copyUntil_subset (c : UInt8) (src : List UInt8) :
    (copyUntil c src).1 ⊆ src ∧ (copyUntil c src).2 ⊆ src := by
  induction src with
  | nil => exact ⟨List.Subset.refl _, List.Subset.refl _⟩
  | cons b src ih =>
    rw [copyUntil]
    split_ifs
    · exact ⟨List.nil_subset _, List.subset_cons_self _ _⟩
    · exact ⟨List.cons_subset_cons _ ih.1, fun x hx => List.mem_cons_of_mem _ (ih.2 hx)⟩

/-- **The next name of a path** is the first of its names. -/
lemma components_eq (path : List UInt8) :
    components path = match nextName path with
      | none => []
      | some (buffer, next) => buffer :: components next := by
  rw [nextName]
  cases hdrop : path.dropWhile (· = 0x2f) with
  | nil =>
    rw [← components_dropWhile, hdrop]
    rfl
  | cons c rest =>
    have hc : c ≠ 0x2f := by
      have hhead := List.head?_dropWhile_not (· = 0x2f) path
      rw [hdrop] at hhead
      simpa using hhead
    rw [← components_dropWhile, hdrop]
    exact components_copyUntil hc

/-- The next name and what is left behind it are made of bytes of the path. -/
lemma nextName_subset {next : List UInt8} (h : nextName path = some (buffer, next)) :
    buffer ⊆ path ∧ next ⊆ path := by
  rw [nextName] at h
  split at h
  · cases h
  · rename_i c rest hdrop
    have hsub := (List.dropWhile_suffix (l := path) (· = 0x2f)).subset
    rw [hdrop] at hsub
    have hcopy := copyUntil_subset 0x2f (c :: rest)
    rw [Option.some.inj h] at hcopy
    exact ⟨fun x hx => hsub (hcopy.1 hx), fun x hx => hsub (hcopy.2 hx)⟩

/-! ### Lookups -/

/-- A name that `char buffer[128]` holds. -/
def ShortName (name : List UInt8) : Prop := name.length ≤ 127 ∧ 0 ∉ name

instance (name : List UInt8) : Decidable (ShortName name) := inferInstanceAs (Decidable (_ ∧ _))

/-- A component is made of bytes of the path. -/
lemma components_subset {name : List UInt8} (h : name ∈ components path) : name ⊆ path := by
  induction hlen : path.length using Nat.strong_induction_on generalizing path with
  | _ len ih =>
    rw [components_eq] at h
    cases hnext : nextName path with
    | none =>
      rw [hnext] at h
      exact absurd h List.not_mem_nil
    | some r =>
      obtain ⟨buffer, next⟩ := r
      rw [hnext] at h
      obtain ⟨hbuffer, hsub⟩ := nextName_subset hnext
      rcases List.mem_cons.mp h with rfl | hrest
      · exact hbuffer
      · exact List.Subset.trans (ih next.length (hlen ▸ nextName_lt hnext) hrest rfl) hsub

/-- The components of a string are short names, when they are short. -/
lemma shortName_of_mem {name : List UInt8} (hzero : 0 ∉ path)
    (hshort : ∀ c ∈ components path, c.length ≤ 127) (h : name ∈ components path) :
    ShortName name :=
  ⟨hshort name h, fun hmem => hzero (components_subset h hmem)⟩

/-- **A driver that looks one name up in each turn**, and returns null where there is none. -/
lemma find_of_turn {f : List UInt8 → ℕ → Except Halt ℕ}
    {step : ℕ → List UInt8 → Except Halt (Option ℕ)}
    (hf : ∀ path current, f path current = match nextName path with
      | none => .ok current
      | some (buffer, next) => step current buffer >>= fun r => match r with
        | some child => f next child
        | none => .ok 0) (path : List UInt8) (current : ℕ) :
    f path current = (fun r => r.getD 0) <$> Lookup.find step current (components path) := by
  induction hlen : path.length using Nat.strong_induction_on generalizing path current with
  | _ len ih =>
    rw [hf, components_eq]
    cases hnext : nextName path with
    | none => rfl
    | some r =>
      obtain ⟨buffer, next⟩ := r
      have hlt := nextName_lt hnext
      dsimp only
      cases hstep : step current buffer with
      | error e => rw [Lookup.find_cons_error hstep]; rfl
      | ok r =>
        cases r with
        | none => rw [Lookup.find_cons_none hstep]; rfl
        | some child =>
          rw [Lookup.find_cons_some hstep]
          exact ih next.length (hlen ▸ hlt) next child rfl

end MicroOS
