import Mathlib.Data.List.TakeWhile
import MicroOS.User.Environment
import MicroOS.User.StringCopy

/-!
`strtok` of `user/libc/string.c` in the memory that it writes to: the search pointer between the
calls, the two loops, and the addresses that they read. The delimiters are a list of bytes.

* `delimTokens`: the maximal runs of a text that hold no delimiter; `delimTokens_append_delims`,
  `delimTokens_append_run` take the next one off;
* `strtok_none`, `strtok_some`: one call, for a text that is left without and with a token;
* `runsOn_left`: the calls that go on from the search pointer;
* `enumeratesTokens_iff`: when the calls for a string return its tokens and then `NULL`. A string
  without a token does not set the search pointer, and the next call goes on in another string.
-/

namespace MicroOS

open ByteMem

/-! ### The function -/

/-- What is kept between the calls: the memory and `backup_string`, which is 0 for `NULL`. -/
structure Strtok where
  mem : Mem
  backup : ℕ

/-- A loop that steps over the bytes that pass a test: where it stops, and what it read. -/
def stepOver (test : UInt8 → Bool) (m : Mem) (p : ℕ) : ℕ → Option (ℕ × List ℕ)
  | 0 => none
  | fuel + 1 =>
    if test (m p) then
      (stepOver test m (wrap32 (p + 1)) fuel).map fun r => (r.1, p :: r.2)
    else some (p, [p])

/-- The first loop of `strtok`: the beginning of the string with the delimiters. -/
def skipDelims (delim : List UInt8) : Mem → ℕ → ℕ → Option (ℕ × List ℕ) :=
  stepOver fun c => isDelim c delim

/-- The second loop: up to the end of the string or to a delimiter. -/
def skipToken (delim : List UInt8) : Mem → ℕ → ℕ → Option (ℕ × List ℕ) :=
  stepOver fun c => c != 0 && !isDelim c delim

/-- `strtok(src_string, delim)`: the pointer that it returns, what is kept, and the addresses of
the string's bytes that were read. -/
def strtokCall (fuel : ℕ) (delim : List UInt8) (st : Strtok) (srcString : ℕ) :
    Option (ℕ × Strtok × List ℕ) :=
  let src := if srcString = 0 then st.backup else srcString
  if src = 0 then some (0, st, [])
  else do
    let (ret, before) ← skipDelims delim st.mem src fuel
    -- the end of the string: `backup_string` is not set
    if st.mem ret = 0 then return (0, st, before)
    else do
      let (stop, inside) ← skipToken delim st.mem ret fuel
      if st.mem stop = 0 then return (ret, { st with backup := stop }, before ++ inside)
      else return (ret, ⟨writeByte st.mem stop 0, wrap32 (stop + 1)⟩, before ++ inside)

/-- A call for `srcString`, and calls for `NULL` after it, `n` calls in all: what they return. -/
def strtokRun (fuel : ℕ) (delim : List UInt8) :
    ℕ → Strtok → ℕ → Option (List ℕ × Strtok × List ℕ)
  | 0, st, _ => some ([], st, [])
  | n + 1, st, srcString => do
      let (p, st, reads) ← strtokCall fuel delim st srcString
      let (ps, st, reads') ← strtokRun fuel delim n st 0
      return (p :: ps, st, reads ++ reads')

/-! ### The tokens of a text -/

/-- The maximal runs that hold no delimiter and are not empty. -/
def delimTokens (delim s : List UInt8) : List (List UInt8) :=
  (s.splitOnP fun c => isDelim c delim).filter (· ≠ [])

section Tokens

variable {delim ds t r : List UInt8} {d : UInt8}

@[simp] lemma delimTokens_nil : delimTokens delim [] = [] := by
  simp [delimTokens, List.splitOnP_nil]

/-- Delimiters in front belong to no token. -/
lemma delimTokens_append_delims (hds : ∀ c ∈ ds, isDelim c delim = true) :
    delimTokens delim (ds ++ r) = delimTokens delim r := by
  induction ds with
  | nil => rfl
  | cons c ds ih =>
    have hc : isDelim c delim = true := hds c List.mem_cons_self
    rw [← ih fun a ha => hds a (List.mem_cons_of_mem c ha), List.cons_append, delimTokens,
      delimTokens, List.splitOnP_cons_eq_if_modifyHead, if_pos hc]
    simp

/-- A run up to the end of the text. -/
lemma delimTokens_run (hne : t ≠ []) (ht : ∀ c ∈ t, isDelim c delim = false) :
    delimTokens delim t = [t] := by
  rw [delimTokens, List.splitOnP_eq_singleton ht]
  simp [hne]

/-- A run up to a delimiter. -/
lemma delimTokens_append_run (hne : t ≠ []) (ht : ∀ c ∈ t, isDelim c delim = false)
    (hd : isDelim d delim = true) : delimTokens delim (t ++ d :: r) = t :: delimTokens delim r := by
  rw [delimTokens, List.splitOnP_append_cons_of_forall_mem ht d hd r, List.filter_cons_of_pos
    (by simpa using hne), delimTokens]

/-- **A text is delimiters only, or has a first run** that ends with it or at a delimiter. -/
lemma text_cases (delim r : List UInt8) : (∀ c ∈ r, isDelim c delim = true) ∨
    ∃ ds t, (∀ c ∈ ds, isDelim c delim = true) ∧ t ≠ [] ∧ (∀ c ∈ t, isDelim c delim = false) ∧
      (r = ds ++ t ∨ ∃ d r', isDelim d delim = true ∧ r = ds ++ (t ++ d :: r')) := by
  have hds : ∀ c ∈ r.takeWhile fun c => isDelim c delim, isDelim c delim = true :=
    fun c hc => List.mem_takeWhile_imp (p := fun c => isDelim c delim) hc
  have hr := List.takeWhile_append_dropWhile (p := fun c => isDelim c delim) (l := r)
  cases hrest : r.dropWhile fun c => isDelim c delim with
  | nil =>
    rw [hrest, List.append_nil] at hr
    rw [hr] at hds
    exact .inl hds
  | cons c rest =>
    have hc : isDelim c delim = false := by
      have := List.head?_dropWhile_not (fun c => isDelim c delim) r
      rw [hrest] at this
      simpa using this
    have ht : ∀ a ∈ (c :: rest).takeWhile fun c => !isDelim c delim, isDelim a delim = false := by
      intro a ha
      have := List.mem_takeWhile_imp (p := fun c => !isDelim c delim) ha
      simpa using this
    have hsplit := List.takeWhile_append_dropWhile (p := fun c => !isDelim c delim)
      (l := c :: rest)
    refine .inr ⟨_, (c :: rest).takeWhile fun c => !isDelim c delim, hds, ?_, ht, ?_⟩
    · rw [List.takeWhile_cons_of_pos (by simp [hc])]
      exact List.cons_ne_nil _ _
    · cases hlast : (c :: rest).dropWhile fun c => !isDelim c delim with
      | nil =>
        rw [hlast, List.append_nil] at hsplit
        exact .inl (by rw [hsplit, ← hrest, hr])
      | cons d r' =>
        have hd := List.head?_dropWhile_not (fun c => !isDelim c delim) (c :: rest)
        rw [hlast] at hd hsplit
        exact .inr ⟨d, r', by simpa using hd, by rw [hsplit, ← hrest, hr]⟩

/-- A text has no token when it has delimiters only. -/
lemma delimTokens_eq_nil_iff {s : List UInt8} :
    delimTokens delim s = [] ↔ ∀ c ∈ s, isDelim c delim = true := by
  constructor
  · intro h
    rcases text_cases delim s with hall | ⟨ds, t, hds, hne, ht, rfl | ⟨d, r, hd, rfl⟩⟩
    · exact hall
    · rw [delimTokens_append_delims hds, delimTokens_run hne ht] at h
      exact absurd h (List.cons_ne_nil _ _)
    · rw [delimTokens_append_delims hds, delimTokens_append_run hne ht hd] at h
      exact absurd h (List.cons_ne_nil _ _)
  · intro h
    have hnone := delimTokens_append_delims (r := []) h
    rwa [List.append_nil, delimTokens_nil] at hnone

end Tokens

/-! ### One call -/

/-- A loop over `k` bytes that pass, up to one that does not. -/
lemma stepOver_eq (test : UInt8 → Bool) {m : Mem} {p k : ℕ}
    (hpass : ∀ i < k, test (m (p + i)) = true) (hstop : test (m (p + k)) = false)
    (hfit : p + k < 2 ^ 32) (fuel : ℕ) : stepOver test m p fuel =
      if fuel ≤ k then none else some (p + k, List.range' p (k + 1)) := by
  induction k generalizing p fuel with
  | zero =>
    cases fuel with
    | zero => rfl
    | succ fuel => simp [stepOver, show test (m p) = false from hstop]
  | succ k ih =>
    have hfirst : test (m p) = true := hpass 0 (Nat.succ_pos k)
    cases fuel with
    | zero => rfl
    | succ fuel =>
      rw [stepOver, if_pos hfirst, wrap32_of_lt (show p + 1 < 2 ^ 32 by omega), ih
        (fun i hi => by simpa [Nat.add_assoc, Nat.add_comm 1] using hpass (i + 1) (by omega))
        (by simpa [Nat.add_assoc, Nat.add_comm 1] using hstop) (by omega)]
      by_cases hfuel : fuel ≤ k
      · rw [if_pos hfuel, if_pos (Nat.succ_le_succ hfuel), Option.map_none]
      · rw [if_neg hfuel, if_neg (by omega), Option.map_some,
          show p + 1 + k = p + (k + 1) by omega]
        rfl

/-- A loop reads the byte that it begins with. -/
lemma stepOver_reads {test : UInt8 → Bool} {m : Mem} {p fuel : ℕ} {r : ℕ × List ℕ}
    (h : stepOver test m p fuel = some r) : p ∈ r.2 := by
  cases fuel with
  | zero => exact absurd h (by simp [stepOver])
  | succ fuel =>
    rw [stepOver] at h
    split_ifs at h
    · obtain ⟨u, -, rfl⟩ := Option.map_eq_some_iff.mp h
      exact List.mem_cons_self
    · rw [← Option.some.inj h]
      exact List.mem_cons_self

/-- A byte of a text in memory. -/
lemma holds_mem {m : Mem} {p i : ℕ} {x : List UInt8} (h : ByteImage.Holds m p x)
    (hi : i < x.length) : m (p + i) ∈ x := by
  rw [h i x[i] (List.getElem?_eq_getElem hi)]
  exact List.getElem_mem hi

/-- **The text that is left** from a pointer on, up to the zero at `e`. -/
structure LeftOver (m : Mem) (p e : ℕ) (r : List UInt8) : Prop where
  string : StringAt m p r
  pos : 0 < p
  ends : p + r.length = e

section Call

variable {delim r ds t : List UInt8} {st : Strtok} {src p e fuel : ℕ}
  (hdelim : 0 ∉ delim) (hleft : LeftOver st.mem p e r) (he : e < 2 ^ 32)
  (hp : (if src = 0 then st.backup else src) = p)

include hdelim in
lemma isDelim_zero : isDelim 0 delim = false := by simpa [isDelim] using hdelim

include hdelim hleft he hp

/-- **No token is left**: `NULL`, and the search pointer stays. -/
lemma strtok_none (hr : ∀ c ∈ r, isDelim c delim = true) (fuel : ℕ) :
    strtokCall fuel delim st src = if fuel ≤ r.length then none
      else some (0, st, List.range' p (r.length + 1)) := by
  obtain ⟨htext, hzero⟩ := ByteImage.holds_append.mp hleft.string.holds
  have hend : st.mem (p + r.length) = 0 := (ByteImage.holds_cons.mp hzero).1
  have hpos : p ≠ 0 := hleft.pos.ne'
  have hskip := stepOver_eq (fun c => isDelim c delim) (m := st.mem) (p := p)
    (k := r.length) (fun i hi => hr _ (holds_mem htext hi))
    (by rw [hend]; exact isDelim_zero hdelim) (by rw [hleft.ends]; exact he) fuel
  rw [strtokCall]
  simp only [hp, if_neg hpos, skipDelims, hskip]
  split_ifs with hfuel
  · rfl
  · simp [hend]

omit hdelim in
/-- The call for a text whose first run is `t`, with `u` behind it. -/
lemma strtok_run {u : List UInt8} {stop : ℕ} (hds : ∀ c ∈ ds, isDelim c delim = true)
    (hne : t ≠ []) (ht : ∀ c ∈ t, isDelim c delim = false) (hr : r = ds ++ (t ++ u))
    (hplace : stop = p + ds.length + t.length)
    (hstop : st.mem stop = 0 ∨ isDelim (st.mem stop) delim = true) (hfuel : r.length < fuel) :
    strtokCall fuel delim st src = some (p + ds.length,
      if st.mem stop = 0 then { st with backup := stop }
      else ⟨writeByte st.mem stop 0, wrap32 (stop + 1)⟩,
      List.range' p (ds.length + 1) ++ List.range' (p + ds.length) (t.length + 1)) := by
  have hpos : p ≠ 0 := hleft.pos.ne'
  have hends := hleft.ends
  have hlen : r.length = ds.length + (t.length + u.length) := by simp [hr]
  have hnz : 0 ∉ t := fun h0 => hleft.string.no_zero (by rw [hr]; simp [h0])
  have hholds := hleft.string.holds
  rw [hr, List.append_assoc, List.append_assoc] at hholds
  obtain ⟨hbefore, hrest⟩ := ByteImage.holds_append.mp hholds
  obtain ⟨hrun, -⟩ := ByteImage.holds_append.mp hrest
  have hhead : st.mem (p + ds.length) ∈ t := by
    have := holds_mem (i := 0) hrun (List.length_pos_iff.mpr hne)
    rwa [Nat.add_zero] at this
  have hfirst : st.mem (p + ds.length) ≠ 0 := ne_of_mem_of_not_mem hhead hnz
  have hskip : skipDelims delim st.mem p fuel =
      some (p + ds.length, List.range' p (ds.length + 1)) := by
    rw [skipDelims, stepOver_eq (fun c => isDelim c delim)
      (fun i hi => hds _ (holds_mem hbefore hi)) (ht _ hhead) (by omega), if_neg (by omega)]
  have hpass : ∀ i < t.length, (st.mem (p + ds.length + i) != 0 &&
      !isDelim (st.mem (p + ds.length + i)) delim) = true := by
    intro i hi
    have hmem := holds_mem hrun hi
    simp [ht _ hmem, ne_of_mem_of_not_mem hmem hnz]
  have hscan : skipToken delim st.mem (p + ds.length) fuel =
      some (stop, List.range' (p + ds.length) (t.length + 1)) := by
    rw [skipToken, stepOver_eq (fun c => c != 0 && !isDelim c delim) hpass, if_neg (by omega),
      hplace]
    · rw [← hplace]
      rcases hstop with hstop | hstop
      · simp [hstop]
      · simp [hstop]
    · omega
  rw [strtokCall]
  simp only [hp, if_neg hpos, hskip, hscan, Option.bind_eq_bind, Option.bind_some, if_neg hfirst]
  split_ifs with hzero
  · rfl
  · rfl

omit hdelim in
/-- **A token is left**: the call returns it and goes on behind it next time. -/
lemma strtok_some (hds : ∀ c ∈ ds, isDelim c delim = true) (hne : t ≠ [])
    (ht : ∀ c ∈ t, isDelim c delim = false)
    (hr : r = ds ++ t ∨ ∃ d r', isDelim d delim = true ∧ r = ds ++ (t ++ d :: r'))
    (hfuel : r.length < fuel) : ∃ st' reads r',
      strtokCall fuel delim st src = some (p + ds.length, st', reads) ∧
      delimTokens delim r = t :: delimTokens delim r' ∧ LeftOver st'.mem st'.backup e r' ∧
      StringAt st'.mem (p + ds.length) t ∧
      (p + ds.length + t.length < st'.backup ∨
        p + ds.length + t.length = st'.backup ∧ st'.backup = e) ∧
      (∀ x, x < p ∨ x = e → st'.mem x = st.mem x) ∧ ∀ x ∈ reads, p ≤ x ∧ x ≤ e := by
  have hends := hleft.ends
  have hstring := hleft.string
  have hzero : ByteImage.Holds st.mem e [0] := by
    rw [← hends]
    exact (ByteImage.holds_append.mp hstring.holds).2
  have hreads : ds.length + t.length ≤ r.length → ∀ x ∈ List.range' p (ds.length + 1) ++
      List.range' (p + ds.length) (t.length + 1), p ≤ x ∧ x ≤ e := by
    intro hlen x hx
    simp only [List.mem_append, List.mem_range'_1] at hx
    omega
  rcases hr with rfl | ⟨d, r', hd, rfl⟩
  · -- the run ends with the string
    rw [List.length_append] at hends hreads
    obtain rfl : e = p + ds.length + t.length := by omega
    have hend : st.mem (p + ds.length + t.length) = 0 := (ByteImage.holds_cons.mp hzero).1
    have hcall := strtok_run hleft he hp hds hne ht (by rw [List.append_nil]) rfl
      (.inl hend) hfuel
    rw [if_pos hend] at hcall
    have hrun := (ByteImage.holds_append.mp (ByteImage.holds_append.mp hstring.holds).1).2
    have hnz : 0 ∉ t := fun h0 => hstring.no_zero (List.mem_append_right ds h0)
    refine ⟨_, _, [], hcall, ?_, ⟨⟨List.not_mem_nil, hzero⟩, ?_, rfl⟩,
      ⟨hnz, ByteImage.holds_append.mpr ⟨hrun, hzero⟩⟩, .inr ⟨rfl, rfl⟩, fun x _ => rfl,
      hreads le_rfl⟩
    · rw [delimTokens_append_delims hds, delimTokens_run hne ht, delimTokens_nil]
    · have := hleft.pos
      show 0 < p + ds.length + t.length
      omega
  · -- the delimiter behind the run becomes a zero
    have hd0 : d ≠ 0 := fun h0 => hstring.no_zero (by simp [h0])
    rw [List.length_append, List.length_append, List.length_cons] at hends hreads hfuel
    have hholds := hstring.holds
    rw [List.append_assoc, List.append_assoc] at hholds
    obtain ⟨-, hrest⟩ := ByteImage.holds_append.mp hholds
    obtain ⟨hrun, hbehind⟩ := ByteImage.holds_append.mp hrest
    have hstop : st.mem (p + ds.length + t.length) = d := (ByteImage.holds_cons.mp hbehind).1
    have hcall := strtok_run hleft he hp hds hne ht rfl rfl (.inr (hstop ▸ hd))
      (by simpa using hfuel)
    rw [if_neg (hstop ▸ hd0), wrap32_of_lt (show p + ds.length + t.length + 1 < 2 ^ 32 by omega)]
      at hcall
    have hnz : 0 ∉ t := fun h0 => hstring.no_zero (by simp [h0])
    have hnz' : 0 ∉ r' := fun h0 => hstring.no_zero (by simp [h0])
    refine ⟨_, _, r', hcall, ?_, ⟨⟨hnz', ?_⟩, Nat.succ_pos _, ?_⟩, ⟨hnz, ?_⟩, ?_, ?_,
      hreads (by omega)⟩
    · rw [delimTokens_append_delims hds, delimTokens_append_run hne ht hd]
    · refine (ByteImage.holds_cons.mp hbehind).2.congr fun x h1 _ => ?_
      exact writeByte_of_ne _ _ (by omega)
    · show p + ds.length + t.length + 1 + r'.length = e
      omega
    · refine ByteImage.holds_append.mpr ⟨hrun.congr fun x _ h2 => ?_,
        ByteImage.holds_cons.mpr ⟨writeByte_self _ _ _, ByteImage.holds_nil⟩⟩
      exact writeByte_of_ne _ _ (by omega)
    · exact .inl (Nat.lt_succ_self _)
    · intro x hx
      exact writeByte_of_ne _ _ (by omega)

end Call

/-! ### All the calls -/

/-- **The pointers are the answers**: the tokens in their order, each a string between `a` and `e`,
and `NULL` from then on. -/
def Answers (m : Mem) (a e : ℕ) : List ℕ → List (List UInt8) → Prop
  | [], _ => True
  | p :: ps, [] => p = 0 ∧ Answers m a e ps []
  | p :: ps, t :: ts => (a ≤ p ∧ p + t.length ≤ e ∧ StringAt m p t) ∧ Answers m a e ps ts

section Run

variable {delim r s : List UInt8} {st st' : Strtok} {a e p n fuel : ℕ}

/-- One call, and the calls after it. -/
lemma strtokRun_succ {src : ℕ} {ps reads reads' : List ℕ} {u : Strtok}
    (hcall : strtokCall fuel delim st src = some (p, u, reads))
    (hrun : strtokRun fuel delim n u 0 = some (ps, st', reads')) :
    strtokRun fuel delim (n + 1) st src = some (p :: ps, st', reads ++ reads') := by
  simp [strtokRun, hcall, hrun]

/-- The calls of a run, taken apart. -/
lemma strtokRun_inv {src : ℕ} {ps reads : List ℕ}
    (h : strtokRun fuel delim (n + 1) st src = some (ps, st', reads)) :
    ∃ q u ps' reads₁ reads₂, strtokCall fuel delim st src = some (q, u, reads₁) ∧
      strtokRun fuel delim n u 0 = some (ps', st', reads₂) ∧ ps = q :: ps' ∧
      reads = reads₁ ++ reads₂ := by
  simp only [strtokRun, Option.bind_eq_bind, Option.bind_eq_some_iff] at h
  obtain ⟨⟨q, u, reads₁⟩, hcall, ⟨ps', v, reads₂⟩, hrun, h⟩ := h
  obtain ⟨rfl, rfl, rfl⟩ : q :: ps' = ps ∧ v = st' ∧ reads₁ ++ reads₂ = reads := by simpa using h
  exact ⟨q, u, ps', reads₁, reads₂, hcall, hrun, rfl, rfl⟩

variable (fuel delim) in
/-- **The calls for a text** from `p` on: `n` calls return its tokens, keep what is in front of it,
and read bytes between `a` and `e`. -/
def RunsOn (n : ℕ) (st : Strtok) (src p a e : ℕ) (r : List UInt8) : Prop :=
  ∃ ps st' reads, strtokRun fuel delim n st src = some (ps, st', reads) ∧ ps.length = n ∧
    Answers st'.mem a e ps (delimTokens delim r) ∧
    (∀ x, x < p ∨ x = e → st'.mem x = st.mem x) ∧ ∀ x ∈ reads, a ≤ x ∧ x ≤ e

/-- A call that returns a token, and the calls for what is left. -/
lemma runsOn_token {ds t : List UInt8} {src : ℕ} (hleft : LeftOver st.mem p e r)
    (he : e < 2 ^ 32) (hp : (if src = 0 then st.backup else src) = p) (ha : a ≤ p)
    (hds : ∀ c ∈ ds, isDelim c delim = true) (hne : t ≠ [])
    (ht : ∀ c ∈ t, isDelim c delim = false)
    (hr : r = ds ++ t ∨ ∃ d r', isDelim d delim = true ∧ r = ds ++ (t ++ d :: r'))
    (hfuel : r.length < fuel)
    (hnext : ∀ (u : Strtok) (r' : List UInt8), LeftOver u.mem u.backup e r' → a ≤ u.backup →
      r'.length < fuel → RunsOn delim fuel n u 0 u.backup a e r') :
    RunsOn delim fuel (n + 1) st src p a e r := by
  have hends := hleft.ends
  obtain ⟨u, reads, r', hcall, htokens, hleft', hstring, hbehind, hframe, hreads⟩ :=
    strtok_some hleft he hp hds hne ht hr hfuel
  have hends' := hleft'.ends
  obtain ⟨ps, st', reads', hrun, hlen, hanswers, hframe', hreads'⟩ :=
    hnext u r' hleft' (by omega) (by omega)
  refine ⟨(p + ds.length) :: ps, st', reads ++ reads', strtokRun_succ hcall hrun,
    by rw [List.length_cons, hlen], ?_, fun x hx => ?_, fun x hx => ?_⟩
  · -- the calls that follow do not touch a token that was returned
    rw [htokens]
    refine ⟨⟨by omega, by omega, hstring.no_zero, hstring.holds.congr fun x h1 h2 => ?_⟩, hanswers⟩
    rw [List.length_append, List.length_singleton] at h2
    exact hframe' x (by omega)
  · rw [hframe' x (by omega), hframe x hx]
  · rcases List.mem_append.mp hx with hx | hx
    · have := hreads x hx
      omega
    · exact hreads' x hx

/-- **The calls that go on from the search pointer.** -/
lemma runsOn_left (hdelim : 0 ∉ delim) (n : ℕ) (hleft : LeftOver st.mem st.backup e r)
    (he : e < 2 ^ 32) (ha : a ≤ st.backup) (hfuel : r.length < fuel) :
    RunsOn delim fuel n st 0 st.backup a e r := by
  induction n generalizing st r with
  | zero => exact ⟨[], st, [], rfl, rfl, trivial, fun x _ => rfl, by simp⟩
  | succ n ih =>
    rcases text_cases delim r with hall | ⟨ds, t, hds, hne, ht, hr⟩
    · -- the pointer stays, and so does everything else
      obtain ⟨ps, st', reads, hrun, hlen, hanswers, hframe, hreads⟩ := ih hleft ha hfuel
      have hends := hleft.ends
      have hcall := strtok_none hdelim hleft he (if_pos rfl) hall fuel
      rw [if_neg (by omega)] at hcall
      rw [delimTokens_eq_nil_iff.mpr hall] at hanswers
      refine ⟨0 :: ps, st', _, strtokRun_succ hcall hrun, by rw [List.length_cons, hlen],
        ?_, hframe, fun x hx => ?_⟩
      · rw [delimTokens_eq_nil_iff.mpr hall]
        exact ⟨rfl, hanswers⟩
      · rcases List.mem_append.mp hx with hx | hx
        · rw [List.mem_range'_1] at hx
          omega
        · exact hreads x hx
    · exact runsOn_token hleft he (if_pos rfl) ha hds hne ht hr hfuel
        fun u r' hleft' ha' hfuel' => ih hleft' ha' hfuel'

end Run

/-- **The calls for a string enumerate its tokens**, whatever their number: they return the
tokens and then `NULL`, and read bytes of the string and its zero only. -/
def EnumeratesTokens (delim : List UInt8) (st : Strtok) (a : ℕ) (s : List UInt8) : Prop :=
  ∀ n, ∃ fuel ps st' reads, strtokRun fuel delim n st a = some (ps, st', reads) ∧ ps.length = n ∧
    Answers st'.mem a (a + s.length) ps (delimTokens delim s) ∧
    ∀ x ∈ reads, a ≤ x ∧ x ≤ a + s.length

section EnumeratesTokens

variable {delim s r : List UInt8} {st : Strtok} {a n fuel : ℕ}

/-- `NULL` before any string was searched. -/
lemma strtokRun_null (hnull : st.backup = 0) (fuel n : ℕ) :
    strtokRun fuel delim n st 0 = some (List.replicate n 0, st, []) := by
  induction n with
  | zero => rfl
  | succ n ih =>
    have hcall : strtokCall fuel delim st 0 = some (0, st, []) := by
      simp [strtokCall, hnull]
    exact strtokRun_succ hcall ih

/-- Calls that all return `NULL` return no token. -/
lemma answers_null (m : Mem) (a e n : ℕ) : Answers m a e (List.replicate n 0) [] := by
  induction n with
  | zero => trivial
  | succ n ih => exact ⟨rfl, ih⟩

/-- A call reads the byte that it begins with. -/
lemma strtokCall_reads {p : ℕ} {reads : List ℕ} {u : Strtok} (hback : st.backup ≠ 0)
    (h : strtokCall fuel delim st 0 = some (p, u, reads)) : st.backup ∈ reads := by
  rw [strtokCall, if_pos rfl, if_neg hback] at h
  simp only [Option.bind_eq_bind, Option.bind_eq_some_iff] at h
  obtain ⟨⟨ret, before⟩, hskip, h⟩ := h
  have hmem : st.backup ∈ before := stepOver_reads hskip
  dsimp only at h
  split_ifs at h
  · obtain ⟨-, -, rfl⟩ : 0 = p ∧ st = u ∧ before = reads := by simpa using h
    exact hmem
  · obtain ⟨⟨stop, inside⟩, -, h⟩ := Option.bind_eq_some_iff.mp h
    dsimp only at h
    split_ifs at h
    · obtain ⟨-, -, rfl⟩ : ret = p ∧ _ = u ∧ before ++ inside = reads := by simpa using h
      exact List.mem_append_left inside hmem
    · obtain ⟨-, -, rfl⟩ : ret = p ∧ _ = u ∧ before ++ inside = reads := by simpa using h
      exact List.mem_append_left inside hmem

variable (hs : StringAt st.mem a s) (ha : 0 < a) (hfit : a + s.length < 2 ^ 32)
  (hdelim : 0 ∉ delim)

include hs ha hfit hdelim

/-- A string without a token, when the search pointer leads nowhere else. -/
lemma enumeratesTokens_of_none (hall : ∀ c ∈ s, isDelim c delim = true)
    (hback : st.backup = 0 ∨ a ≤ st.backup ∧ st.backup ≤ a + s.length) :
    EnumeratesTokens delim st a s := by
  intro n
  have hleft : LeftOver st.mem a (a + s.length) s := ⟨hs, ha, rfl⟩
  rw [delimTokens_eq_nil_iff.mpr hall]
  cases n with
  | zero => exact ⟨0, [], st, [], rfl, rfl, trivial, by simp⟩
  | succ n =>
    have hcall := strtok_none hdelim hleft hfit (if_neg ha.ne') hall (s.length + 1)
    rw [if_neg (by omega)] at hcall
    have hfirst : ∀ x ∈ List.range' a (s.length + 1), a ≤ x ∧ x ≤ a + s.length := by
      intro x hx
      rw [List.mem_range'_1] at hx
      omega
    rcases hback with hnull | ⟨h1, h2⟩
    · refine ⟨s.length + 1, _, st, _, strtokRun_succ hcall (strtokRun_null hnull _ n), by simp,
        ⟨rfl, answers_null _ _ _ n⟩, ?_⟩
      rw [List.append_nil]
      exact hfirst
    · have hdrop := hs.drop (k := st.backup - a) (by omega)
      rw [Nat.add_sub_cancel' h1] at hdrop
      have hends : (s.drop (st.backup - a)).length = s.length - (st.backup - a) :=
        List.length_drop
      have hleft' : LeftOver st.mem st.backup (a + s.length) (s.drop (st.backup - a)) :=
        ⟨hdrop, by omega, by omega⟩
      have hnone : delimTokens delim (s.drop (st.backup - a)) = [] :=
        delimTokens_eq_nil_iff.mpr fun c hc => hall c (List.mem_of_mem_drop hc)
      obtain ⟨ps, st', reads, hrun, hlen, hanswers, -, hreads⟩ :=
        runsOn_left hdelim n hleft' hfit h1 (show _ < s.length + 1 by omega)
      rw [hnone] at hanswers
      refine ⟨s.length + 1, 0 :: ps, st', _, strtokRun_succ hcall hrun,
        by rw [List.length_cons, hlen], ⟨rfl, hanswers⟩, fun x hx => ?_⟩
      rcases List.mem_append.mp hx with hx | hx
      · exact hfirst x hx
      · exact hreads x hx

/-- After a string without a token the second call reads where the search pointer is. -/
lemma EnumeratesTokens.backup (h : EnumeratesTokens delim st a s)
    (hall : ∀ c ∈ s, isDelim c delim = true) :
    st.backup = 0 ∨ a ≤ st.backup ∧ st.backup ≤ a + s.length := by
  by_contra hother
  rw [not_or] at hother
  have hleft : LeftOver st.mem a (a + s.length) s := ⟨hs, ha, rfl⟩
  obtain ⟨fuel, ps, st', reads, hrun, -, -, hreads⟩ := h 2
  obtain ⟨p, u, ps', reads₁, reads₂, hcall, hrun, -, rfl⟩ := strtokRun_inv hrun
  rw [strtok_none hdelim hleft hfit (if_neg ha.ne') hall] at hcall
  split_ifs at hcall
  obtain ⟨-, rfl, -⟩ : 0 = p ∧ st = u ∧ _ = reads₁ := by simpa using hcall
  obtain ⟨q, v, ps₂, reads₃, reads₄, hsecond, -, -, rfl⟩ := strtokRun_inv hrun
  have hmem : st.backup ∈ reads₃ := strtokCall_reads hother.1 hsecond
  exact hother.2 (hreads _ (List.mem_append_right reads₁ (List.mem_append_left _ hmem)))

/-- **The calls enumerate the tokens** exactly when there is a token, or no other string to go on
in. -/
theorem enumeratesTokens_iff : EnumeratesTokens delim st a s ↔ (∃ c ∈ s, isDelim c delim = false) ∨
    st.backup = 0 ∨ a ≤ st.backup ∧ st.backup ≤ a + s.length := by
  rcases text_cases delim s with hall | ⟨ds, t, hds, hne, ht, hr⟩
  · have hno : ¬ ∃ c ∈ s, isDelim c delim = false := by
      rintro ⟨c, hc, hrun⟩
      simp [hall c hc] at hrun
    rw [or_iff_right hno]
    exact ⟨fun h => h.backup hs ha hfit hdelim hall,
      enumeratesTokens_of_none hs ha hfit hdelim hall⟩
  · have htoken : ∃ c ∈ s, isDelim c delim = false := by
      obtain ⟨c, t, rfl⟩ := List.exists_cons_of_ne_nil hne
      refine ⟨c, ?_, ht c List.mem_cons_self⟩
      rcases hr with rfl | ⟨d, r', -, rfl⟩
      · simp
      · simp
    refine iff_of_true (fun n => ?_) (.inl htoken)
    cases n with
    | zero => exact ⟨0, [], st, [], rfl, rfl, trivial, by simp⟩
    | succ n =>
      have hleft : LeftOver st.mem a (a + s.length) s := ⟨hs, ha, rfl⟩
      obtain ⟨ps, st', reads, hrun, hlen, hanswers, -, hreads⟩ :=
        runsOn_token (n := n) hleft hfit (if_neg ha.ne') le_rfl hds hne ht hr
          (Nat.lt_succ_self _) fun u r' hleft' ha' hfuel' =>
            runsOn_left hdelim n hleft' hfit ha' hfuel'
      exact ⟨s.length + 1, ps, st', reads, hrun, hlen, hanswers, hreads⟩

end EnumeratesTokens

/-- The text `a b` at 100, and a space at 200. -/
def twoTexts : Mem := ByteImage.store (ByteImage.store (fun _ => 0) 100 [97, 32, 98]) 200 [32]

lemma twoTexts_first : StringAt twoTexts 100 [97, 32, 98] := ⟨by decide, by decide⟩

/-- The two tokens of the text, in a program that has not searched before. -/
theorem enumeratesTokens_letters : EnumeratesTokens [32] ⟨twoTexts, 0⟩ 100 [97, 32, 98] :=
  (enumeratesTokens_iff twoTexts_first (by decide) (by decide) (by decide)).mpr (.inr (.inl rfl))

/-- After one token of the text `a b`, the calls for the string of one space return `NULL` and then
the token `b` of the other text. -/
theorem strtok_goes_on_elsewhere : ∃ st reads reads',
    strtokCall 4 [32] ⟨twoTexts, 0⟩ 100 = some (100, st, reads) ∧ StringAt st.mem 200 [32] ∧
      strtokRun 4 [32] 2 st 200 = some ([0, 102], { st with backup := 103 }, reads') ∧
      StringAt st.mem 102 [98] ∧ ¬ EnumeratesTokens [32] st 200 [32] := by
  have hs : StringAt (writeByte twoTexts 101 0) 200 [32] := ⟨by decide, by decide⟩
  refine ⟨⟨writeByte twoTexts 101 0, 102⟩, _, _, rfl, hs, rfl, ⟨by decide, by decide⟩, ?_⟩
  have hiff : EnumeratesTokens [32] ⟨writeByte twoTexts 101 0, 102⟩ 200 [32] ↔ _ :=
    enumeratesTokens_iff hs (by decide) (by decide) (by decide)
  rw [hiff]
  decide

end MicroOS
