import Mathlib.Tactic

/-!
Lookups along a list of names, in a tree whose directories have named children.

* `Tree`, `Tree.lookup`: the directories, the child of a name, and where a list of names leads;
* `Tree.Before`: what holds of every node that a further name is looked up in;
* `find`, `asked`: a program that looks one name up after the other and may stop with an error, and
  the nodes and names that it does so for;
* `Simulates`: a step of the program agrees with the tree in every directory. `find_lookup` and
  `forall_asked` say what the program does when it is asked in directories only, `find_append` and
  `mem_asked` that it gets to every node the tree leads to;
* `Tree.Adds`: a tree with a child more, and what is found in it; `Tree.keys_unique`: the names that
  lead to a node.
-/

namespace Lookup

variable {ν κ α ε : Type*}

/-! ### Trees -/

/-- Nodes, some of them directories, with the child that a name leads to. -/
structure Tree (ν κ : Type*) where
  isDir : ν → Bool
  child : ν → κ → Option ν

namespace Tree

variable {T : Tree ν κ} {P Q : ν → Prop} {n n' c : ν} {k : κ} {ks pre rest : List κ}

/-- Where names lead: through directories, from each to the child of the next name. -/
def lookup (T : Tree ν κ) : ν → List κ → Option ν
  | n, [] => some n
  | n, k :: ks => if T.isDir n then (T.child n k).bind fun c => T.lookup c ks else none

@[simp] lemma lookup_nil (T : Tree ν κ) (n : ν) : T.lookup n [] = some n := rfl

/-- The first name leads to a child, and the others on from there. -/
lemma lookup_cons (hdir : T.isDir n) :
    T.lookup n (k :: ks) = (T.child n k).bind fun c => T.lookup c ks := by
  rw [lookup, if_pos hdir]

/-- The first step of a lookup that leads somewhere. -/
lemma lookup_cons_eq_some :
    T.lookup n (k :: ks) = some n' ↔ T.isDir n ∧ ∃ c, T.child n k = some c ∧
      T.lookup c ks = some n' := by
  rw [lookup]
  split_ifs with hdir
  · rw [Option.bind_eq_some_iff]
    exact ⟨fun h => ⟨hdir, h⟩, fun h => h.2⟩
  · exact ⟨fun h => (by cases h), fun h => absurd h.1 hdir⟩

/-- **What holds of every node that a further name is looked up in.** -/
def Before (T : Tree ν κ) (P : ν → Prop) (n : ν) (ks : List κ) : Prop :=
  ∀ pre k rest n', ks = pre ++ k :: rest → T.lookup n pre = some n' → P n'

lemma before_nil : T.Before P n [] := fun pre k rest _ h _ =>
  absurd h.symm (by simp)

/-- The first name is looked up in the node itself, the others from its child on. -/
lemma before_cons : T.Before P n (k :: ks) ↔
    P n ∧ ∀ c, T.isDir n → T.child n k = some c → T.Before P c ks := by
  constructor
  · refine fun h => ⟨h [] k ks n rfl rfl, fun c hdir hc pre k' rest n' hks hn' => ?_⟩
    refine h (k :: pre) k' rest n' (by rw [hks, List.cons_append]) ?_
    exact lookup_cons_eq_some.mpr ⟨hdir, c, hc, hn'⟩
  · rintro ⟨hn, hrest⟩ pre k' rest n' hks hn'
    cases pre with
    | nil =>
      obtain rfl := Option.some.inj hn'
      exact hn
    | cons k₁ pre =>
      obtain ⟨rfl, hrests⟩ := List.cons.inj hks
      obtain ⟨hdir, c, hc, hn'⟩ := lookup_cons_eq_some.mp hn'
      exact hrest c hdir hc pre k' rest n' hrests hn'

lemma Before.mono (h : T.Before P n ks) (hle : ∀ n, P n → Q n) : T.Before Q n ks :=
  fun pre k rest n' hks hn' => hle n' (h pre k rest n' hks hn')

end Tree

/-! ### Programs -/

/-- A program that looks the names up one after the other. -/
def find (step : α → κ → Except ε (Option α)) : α → List κ → Except ε (Option α)
  | a, [] => .ok (some a)
  | a, k :: ks => do
      match ← step a k with
      | some b => find step b ks
      | none => .ok none

/-- The steps that it takes. -/
def asked (step : α → κ → Except ε (Option α)) : α → List κ → List (α × κ)
  | _, [] => []
  | a, k :: ks => (a, k) ::
      match step a k with
      | .ok (some b) => asked step b ks
      | _ => []

section Program

variable {step : α → κ → Except ε (Option α)} {a b : α} {k : κ} {ks : List κ}

/-- The search goes on at a child that it finds. -/
lemma find_cons_some (h : step a k = .ok (some b)) : find step a (k :: ks) = find step b ks := by
  rw [find, h]
  rfl

lemma find_cons_none (h : step a k = .ok none) : find step a (k :: ks) = .ok none := by
  rw [find, h]
  rfl

lemma find_cons_error {e : ε} (h : step a k = .error e) : find step a (k :: ks) = .error e := by
  rw [find, h]
  rfl

/-- A program that finds something has found every name. -/
lemma steps_of_find (h : find step a ks = .ok (some b)) :
    ∀ k ∈ ks, ∃ a' b', step a' k = .ok (some b') := by
  induction ks generalizing a with
  | nil => exact fun k hk => absurd hk List.not_mem_nil
  | cons k ks ih =>
    cases hstep : step a k with
    | error e =>
      rw [find_cons_error hstep] at h
      cases h
    | ok r =>
      cases r with
      | none =>
        rw [find_cons_none hstep] at h
        cases h
      | some c =>
        rw [find_cons_some hstep] at h
        exact List.forall_mem_cons.mpr ⟨⟨a, c, hstep⟩, ih h⟩

/-- The node and the name of a step that finds a child are asked first. -/
lemma asked_cons_some (h : step a k = .ok (some b)) :
    asked step a (k :: ks) = (a, k) :: asked step b ks := by
  rw [asked, h]

lemma asked_cons_none (h : step a k = .ok none) : asked step a (k :: ks) = [(a, k)] := by
  rw [asked, h]

end Program

/-! ### Simulation -/

/-- **A step agrees with the tree**, in every directory and for the names of a kind. -/
def Simulates (T : Tree ν κ) (step : α → κ → Except ε (Option α)) (R : ν → α → Prop)
    (K : κ → Prop) : Prop :=
  ∀ n a k, R n a → K k → T.isDir n → ∃ x, step a k = .ok x ∧ Option.Rel R (T.child n k) x

/-- No name is found in a node that is no directory. -/
def Harmless (T : Tree ν κ) (step : α → κ → Except ε (Option α)) (R : ν → α → Prop)
    (K : κ → Prop) (n : ν) : Prop :=
  T.isDir n ∨ ∀ a k, R n a → K k → step a k = .ok none

variable {T : Tree ν κ} {step : α → κ → Except ε (Option α)} {R : ν → α → Prop} {K : κ → Prop}
  {n n' : ν} {a : α} {k : κ} {ks pre rest : List κ}

/-- **What the program returns** when it is asked in harmless nodes only: the node that the names
lead to, or that there is none. -/
theorem find_lookup (hs : Simulates T step R K) (hR : R n a) (hK : ∀ k ∈ ks, K k)
    (hsafe : T.Before (Harmless T step R K) n ks) :
    ∃ x, find step a ks = .ok x ∧ Option.Rel R (T.lookup n ks) x := by
  induction ks generalizing n a with
  | nil => exact ⟨some a, rfl, .some hR⟩
  | cons k ks ih =>
    obtain ⟨hk, hks⟩ := List.forall_mem_cons.mp hK
    obtain ⟨hn, hrest⟩ := Tree.before_cons.mp hsafe
    by_cases hdir : T.isDir n
    · obtain ⟨x, hx, hrel⟩ := hs n a k hR hk hdir
      rw [Tree.lookup_cons hdir]
      cases hchild : T.child n k with
      | none =>
        rw [hchild] at hrel
        cases hrel
        exact ⟨none, find_cons_none hx, .none⟩
      | some c =>
        rw [hchild] at hrel
        cases hrel with
        | some hc =>
          rw [find_cons_some hx]
          exact ih hc hks (hrest c hdir hchild)
    · refine ⟨none, find_cons_none ((hn.resolve_left hdir) a k hR hk), ?_⟩
      rw [Tree.lookup, if_neg hdir]
      exact .none

/-- What it is asked for then. -/
theorem forall_asked {P : ν → Prop} (hs : Simulates T step R K) (hR : R n a)
    (hK : ∀ k ∈ ks, K k) (hsafe : T.Before P n ks)
    (hP : ∀ n, P n → Harmless T step R K n) :
    ∀ c ∈ asked step a ks, ∃ n', R n' c.1 ∧ P n' := by
  induction ks generalizing n a with
  | nil => exact fun c hc => absurd hc List.not_mem_nil
  | cons k ks ih =>
    obtain ⟨hk, hks⟩ := List.forall_mem_cons.mp hK
    obtain ⟨hn, hrest⟩ := Tree.before_cons.mp hsafe
    have hlast : ∀ c ∈ [(a, k)], ∃ n', R n' c.1 ∧ P n' := by
      intro c hc
      rw [List.mem_singleton.mp hc]
      exact ⟨n, hR, hn⟩
    by_cases hdir : T.isDir n
    · obtain ⟨x, hx, hrel⟩ := hs n a k hR hk hdir
      cases hchild : T.child n k with
      | none =>
        rw [hchild] at hrel
        cases hrel
        rwa [asked_cons_none hx]
      | some c =>
        rw [hchild] at hrel
        cases hrel with
        | some hc =>
          rw [asked_cons_some hx]
          exact List.forall_mem_cons.mpr
            ⟨⟨n, hR, hn⟩, ih hc hks (hrest c hdir hchild)⟩
    · rwa [asked_cons_none ((hP n hn).resolve_left hdir a k hR hk)]

/-- The names that it has looked up are of the kind, when it returns. -/
theorem names_of_find {x : Option α} (hs : Simulates T step R K) (hR : R n a)
    (hK : ∀ k ∈ ks, ∀ a x, step a k = .ok x → K k) (hlookup : T.lookup n ks = some n')
    (hfind : find step a ks = .ok x) : ∀ k ∈ ks, K k := by
  induction ks generalizing n a with
  | nil => exact fun k hk => absurd hk List.not_mem_nil
  | cons k ks ih =>
    obtain ⟨hk, hks⟩ := List.forall_mem_cons.mp hK
    obtain ⟨hdir, c, hchild, hrest⟩ := Tree.lookup_cons_eq_some.mp hlookup
    cases hstep : step a k with
    | error e =>
      rw [find_cons_error hstep] at hfind
      cases hfind
    | ok y =>
      obtain ⟨y', hy', hrel⟩ := hs n a k hR (hk a y hstep) hdir
      obtain rfl := Except.ok.inj (hstep.symm.trans hy')
      rw [hchild] at hrel
      cases hrel with
      | some hc =>
        rw [find_cons_some hstep] at hfind
        exact List.forall_mem_cons.mpr ⟨hk a _ hstep, ih hc hks hrest hfind⟩

/-- **The program gets to every node that names lead to**, and goes on from there. -/
theorem find_append (hs : Simulates T step R K) (hR : R n a) (hK : ∀ k ∈ pre, K k)
    (h : T.lookup n pre = some n') :
    ∃ b, R n' b ∧ ∀ rest, find step a (pre ++ rest) = find step b rest := by
  induction pre generalizing n a with
  | nil =>
    obtain rfl := Option.some.inj h
    exact ⟨a, hR, fun rest => rfl⟩
  | cons k pre ih =>
    obtain ⟨hk, hpre⟩ := List.forall_mem_cons.mp hK
    obtain ⟨hdir, c, hchild, hrest⟩ := Tree.lookup_cons_eq_some.mp h
    obtain ⟨x, hx, hrel⟩ := hs n a k hR hk hdir
    rw [hchild] at hrel
    cases hrel with
    | some hc =>
      obtain ⟨b, hb, hfind⟩ := ih hc hpre hrest
      exact ⟨b, hb, fun rest => (find_cons_some hx).trans (hfind rest)⟩

/-- The next name is looked up there. -/
theorem mem_asked (hs : Simulates T step R K) (hR : R n a) (hK : ∀ k ∈ pre, K k)
    (h : T.lookup n pre = some n') : ∃ b, R n' b ∧ ∀ k rest, (b, k) ∈
      asked step a (pre ++ k :: rest) := by
  induction pre generalizing n a with
  | nil =>
    obtain rfl := Option.some.inj h
    exact ⟨a, hR, fun k rest => List.mem_cons_self⟩
  | cons k pre ih =>
    obtain ⟨hk, hpre⟩ := List.forall_mem_cons.mp hK
    obtain ⟨hdir, c, hchild, hrest⟩ := Tree.lookup_cons_eq_some.mp h
    obtain ⟨x, hx, hrel⟩ := hs n a k hR hk hdir
    rw [hchild] at hrel
    cases hrel with
    | some hc =>
      obtain ⟨b, hb, hmem⟩ := ih hc hpre hrest
      refine ⟨b, hb, fun k' rest => ?_⟩
      rw [List.cons_append, asked_cons_some hx]
      exact List.mem_cons_of_mem _ (hmem k' rest)

/-! ### Trees that grow -/

namespace Tree

/-- **A child is added** in a part of a tree: the node `p` gets the new child `c` at the names of a
kind, where it had none, and the rest is as it was. -/
structure Adds (T T' : Tree ν κ) (S : Set ν) (E : κ → Prop) (p c : ν) : Prop where
  closed : ∀ n ∈ S, ∀ k m, T.child n k = some m → m ∈ S
  isDir : ∀ n ∈ S, T'.isDir n = T.isDir n
  kept : ∀ n ∈ S, ∀ k, ¬(n = p ∧ E k) → T'.child n k = T.child n k
  free : ∀ k, E k → T.child p k = none
  new : ∀ k, E k → T'.child p k = some c
  leaf : ∀ k, T'.child c k = none

variable {T T' : Tree ν κ} {S : Set ν} {E : κ → Prop} {p c m : ν}

/-- Names behind others. -/
lemma lookup_append (T : Tree ν κ) (n : ν) (pre rest : List κ) :
    T.lookup n (pre ++ rest) = (T.lookup n pre).bind fun m => T.lookup m rest := by
  induction pre generalizing n with
  | nil => rfl
  | cons k pre ih =>
    rw [List.cons_append, lookup, lookup]
    split_ifs with hdir
    · cases T.child n k with
      | none => rfl
      | some m => exact ih m
    · rfl

/-- The last name leads from where the others lead to. -/
lemma lookup_concat {pre : List κ} : T.lookup n (pre ++ [k]) = some m ↔
    ∃ b, T.lookup n pre = some b ∧ T.isDir b ∧ T.child b k = some m := by
  rw [lookup_append, Option.bind_eq_some_iff]
  refine exists_congr fun b => and_congr_right fun _ => ?_
  rw [lookup_cons_eq_some]
  simp

namespace Adds

/-- What was found is found. -/
lemma lookup_some (h : Adds T T' S E p c) (hn : n ∈ S) (hm : T.lookup n ks = some m) :
    T'.lookup n ks = some m := by
  induction ks generalizing n with
  | nil => exact hm
  | cons k ks ih =>
    obtain ⟨hdir, b, hb, hrest⟩ := lookup_cons_eq_some.mp hm
    have hkept : T'.child n k = T.child n k := by
      refine h.kept n hn k ?_
      rintro ⟨rfl, hk⟩
      rw [h.free k hk] at hb
      cases hb
    exact lookup_cons_eq_some.mpr ⟨(h.isDir n hn).trans hdir, b, hkept.trans hb,
      ih (h.closed n hn k b hb) hrest⟩

lemma lookup_new (h : Adds T T' S E p c) (hp : p ∈ S) (hn : n ∈ S) (hdir : T.isDir p)
    (hpre : T.lookup n pre = some p) (hk : E k) : T'.lookup n (pre ++ [k]) = some c :=
  lookup_concat.mpr ⟨p, h.lookup_some hn hpre, (h.isDir p hp).trans hdir, h.new k hk⟩

/-- **Nothing else is found** that was not. -/
lemma lookup_none (h : Adds T T' S E p c) (hn : n ∈ S) (hnone : T.lookup n ks = none) :
    T'.lookup n ks = none ∨ ∃ pre k, ks = pre ++ [k] ∧ T.lookup n pre = some p ∧ E k := by
  induction ks generalizing n with
  | nil => cases hnone
  | cons k ks ih =>
    by_cases hdir : T.isDir n
    · rw [lookup_cons hdir] at hnone
      rw [lookup_cons ((h.isDir n hn).trans hdir)]
      by_cases hnew : n = p ∧ E k
      · obtain ⟨rfl, hk⟩ := hnew
        rw [h.new k hk, Option.bind_some]
        cases ks with
        | nil => exact .inr ⟨[], k, rfl, rfl, hk⟩
        | cons k' ks =>
          -- the new node has no children
          refine .inl ?_
          rw [lookup, h.leaf, Option.bind_none]
          exact ite_self none
      · rw [h.kept n hn k hnew]
        cases hchild : T.child n k with
        | none => exact .inl rfl
        | some b =>
          rw [hchild] at hnone
          refine (ih (h.closed n hn k b hchild) hnone).imp_right ?_
          rintro ⟨pre, k', rfl, hpre, hk'⟩
          exact ⟨k :: pre, k', rfl, lookup_cons_eq_some.mpr ⟨hdir, b, hchild, hpre⟩, hk'⟩
    · refine .inl ?_
      rw [lookup, if_neg fun hdir' => hdir ((h.isDir n hn).symm.trans hdir')]

end Adds

/-- Names lead to nodes of a part that children do not leave. -/
lemma lookup_mem (closed : ∀ n ∈ S, ∀ k m, T.child n k = some m → m ∈ S) (hn : n ∈ S)
    (h : T.lookup n ks = some m) : m ∈ S := by
  induction ks generalizing n with
  | nil =>
    obtain rfl := Option.some.inj h
    exact hn
  | cons k ks ih =>
    obtain ⟨-, b, hb, hrest⟩ := lookup_cons_eq_some.mp h
    exact ih (closed n hn k b hb) hrest

/-- **The names that lead to a node** are the same up to a relation, where every node but the first
one has one parent, and is its child at names that are related only. -/
lemma keys_unique {R : κ → κ → Prop} {r : ν} {ks' : List κ} (hr : r ∈ S)
    (closed : ∀ n ∈ S, ∀ k m, T.child n k = some m → m ∈ S)
    (once : ∀ n ∈ S, ∀ n' ∈ S, ∀ k k' b, T.child n k = some b → T.child n' k' = some b →
      n = n' ∧ R k k')
    (top : ∀ n ∈ S, ∀ k, T.child n k ≠ some r) (h : T.lookup r ks = some m)
    (h' : T.lookup r ks' = some m) : List.Forall₂ R ks ks' := by
  induction ks using List.reverseRecOn generalizing m ks' with
  | nil =>
    obtain rfl := Option.some.inj h
    cases ks' using List.reverseRecOn with
    | nil => exact .nil
    | append_singleton ks' k' =>
      obtain ⟨b, hb, -, hchild⟩ := lookup_concat.mp h'
      exact absurd hchild (top b (lookup_mem closed hr hb) k')
  | append_singleton ks k ih =>
    obtain ⟨b, hb, -, hchild⟩ := lookup_concat.mp h
    cases ks' using List.reverseRecOn with
    | nil =>
      obtain rfl := Option.some.inj h'
      exact absurd hchild (top b (lookup_mem closed hr hb) k)
    | append_singleton ks' k' =>
      obtain ⟨b', hb', -, hchild'⟩ := lookup_concat.mp h'
      obtain ⟨rfl, hk⟩ := once b (lookup_mem closed hr hb) b' (lookup_mem closed hr hb') k k' m
        hchild hchild'
      exact List.rel_append (ih hb hb') (.cons hk .nil)

end Tree

end Lookup
