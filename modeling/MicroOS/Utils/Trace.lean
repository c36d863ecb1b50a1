import MicroOS.Lib.Hex
import MicroOS.Utils.String

/-!
The symbols of the kernel, `utils/trace.c`.

* `initGlobalSymbols`: `init_global_symbols`, which reads a text of symbols into a table;
* `resolveSymbolFromName`, `resolveSymbolFromAddr`: the searches in the table;
* `SymbolLine`, `symbolText`: a line for a symbol, and the text of a list of them;
* `readAddr_digits`: the addresses that are read right;
* `NameRight`, `AddrRight`: a search is right; `symbols_resolve_iff` says which ones are.
-/

namespace MicroOS

open ByteMem Checked

/-- `symbol_t`. -/
structure Symbol where
  address : ℕ
  name : List UInt8
  deriving DecidableEq

/-- A capital digit. -/
def Capital (c : UInt8) : Prop := 0x41 ≤ c ∧ c ≤ 0x46

instance (c : UInt8) : Decidable (Capital c) := inferInstanceAs (Decidable (_ ∧ _))

/-- A turn of the loop over the digits of an address: `addr` with a digit more. -/
def addDigit (addr : ℕ) (c : UInt8) : Option ℕ :=
  if 0x30 ≤ c ∧ c ≤ 0x39 then some (wrap32 (addr * 16 + (c.toNat - 0x30)))
  else if 0x61 ≤ c ∧ c ≤ 0x66 then some (wrap32 (addr * 16 + (c.toNat - 0x61 + 10)))
  else if Capital c then some (wrap32 (addr * 15 + (c.toNat - 0x41 + 10)))
  else none

/-- The loop over the digits, and the text behind them. -/
def readAddr : List UInt8 → ℕ → ℕ × List UInt8
  | [], addr => (addr, [])
  | c :: symfile, addr =>
    match addDigit addr c with
    | some addr => readAddr symfile addr
    | none => (addr, c :: symfile)

/-- `register_symbol`. -/
def registerSymbol (symbols : List Symbol) (sym : Symbol) : List Symbol :=
  if [0x2e, 0x4c] <+: sym.name then symbols else symbols ++ [sym]

/-- The loop of `init_global_symbols`, with the symbols so far. A name without an end is not copied,
nor is one that does not fit. -/
def symbolLoop : ℕ → List UInt8 → List Symbol → Except Halt (List Symbol)
  | 0, _, _ => .error .loops
  | fuel + 1, symfile, symbols =>
    match readAddr symfile 0 with
    | (_, []) => .ok symbols
    | (addr, c :: symfile) =>
      if c ≠ 0x20 then .ok symbols
      else if 0x0a ∈ symfile ∧ (copyUntil 0x0a symfile).1.length < 128 then
        symbolLoop fuel (copyUntil 0x0a symfile).2
          (registerSymbol symbols ⟨addr, (copyUntil 0x0a symfile).1⟩)
      else .error (.outOfBounds 128)

/-- `init_global_symbols`. -/
def initGlobalSymbols (symfile : List UInt8) : Except Halt (List Symbol) :=
  symbolLoop (symfile.length + 1) symfile []

/-- `resolve_symbol_from_name`. -/
def resolveSymbolFromName (symbols : List Symbol) (name : List UInt8) : ℕ :=
  match symbols.find? fun sym => strcmp name sym.name = 0 with
  | some sym => sym.address
  | none => 0

/-- `resolve_symbol_from_addr`; `beyond` is what is read behind the table. -/
def resolveSymbolFromAddr (beyond : ℕ) : List Symbol → ℕ → Option (List UInt8)
  | [], _ => none
  | sym :: symbols, address =>
    let next := (symbols.head?.map Symbol.address).getD beyond
    if sym.address ≤ address ∧ address < next ∧ next ≠ 0xffffffff then some sym.name
    else resolveSymbolFromAddr beyond symbols address

/-! ### The text -/

/-- A line for a symbol: the digits of its address, with their values, and its name. -/
structure SymbolLine where
  digits : List UInt8
  values : List ℕ
  name : List UInt8
  spelled : List.Forall₂ Hex.Digit digits values
  small : Hex.value values < 0xffffffff
  name_ne_nil : name ≠ []
  name_short : name.length < 128
  no_newline : 0x0a ∉ name
  no_zero : 0 ∉ name
  not_local : ¬[0x2e, 0x4c] <+: name

/-- The address of a symbol. -/
def SymbolLine.address (l : SymbolLine) : ℕ := Hex.value l.values

/-- Digits, a space, a name and a newline. -/
def lineText (digits name : List UInt8) : List UInt8 := digits ++ 0x20 :: (name ++ [0x0a])

/-- `xxxxxx`. -/
def lastName : List UInt8 := List.replicate 6 0x78

/-- The text of a list of symbols, with the line `ffffffff xxxxxx` behind it. -/
def symbolText (ls : List SymbolLine) : List UInt8 :=
  (ls.flatMap fun l => lineText l.digits l.name) ++ lineText (List.replicate 8 0x66) lastName

/-- **No capital digit is behind a digit other than zero.** -/
def Plain (digits : List UInt8) : Prop :=
  ∀ c ∈ (digits.dropWhile (· = 0x30)).tail, ¬Capital c

instance (digits : List UInt8) : Decidable (Plain digits) :=
  List.decidableBAll (¬Capital ·) _

variable {digits name rest : List UInt8} {ks : List ℕ} {c : UInt8} {a k v fuel : ℕ}
  {symbols : List Symbol}

/-- A digit more. -/
lemma addDigit_eq (hc : Hex.Digit c k) (a : ℕ) :
    addDigit a c = some (wrap32 (a * (if Capital c then 15 else 16) + k)) := by
  have hk := hc.lt
  interval_cases k <;> rcases hc with hc | hc <;> obtain rfl := Option.some.inj hc <;> rfl

lemma digit_zero_iff (hc : Hex.Digit c k) : k = 0 ↔ c = 0x30 := by
  have hk := hc.lt
  interval_cases k <;> rcases hc with hc | hc <;> obtain rfl := Option.some.inj hc <;> decide

lemma plain_cons_zero (digits : List UInt8) : Plain (0x30 :: digits) ↔ Plain digits := by
  rw [Plain, List.dropWhile_cons, if_pos (by decide), ← Plain]

lemma plain_cons_of_ne (hc : c ≠ 0x30) : Plain (c :: digits) ↔ ∀ d ∈ digits, ¬Capital d := by
  rw [Plain, List.dropWhile_cons, if_neg (by simpa using hc), List.tail_cons]

/-- The value of digits behind others. -/
def valueFromDigits (v : ℕ) (ks : List ℕ) : ℕ := ks.foldl (fun v k => v * 16 + k) v

/-- More digits make no smaller number. -/
lemma le_valueFromDigits (v : ℕ) (ks : List ℕ) : v ≤ valueFromDigits v ks := by
  induction ks generalizing v with
  | nil => exact le_rfl
  | cons k ks ih => exact le_trans (by omega) (ih (v * 16 + k))

/-- The loop over digits stops at the space behind them. -/
lemma readAddr_append (hd : List.Forall₂ Hex.Digit digits ks) (rest : List UInt8) (a : ℕ) :
    readAddr (digits ++ 0x20 :: rest) a = ((readAddr digits a).1, 0x20 :: rest) := by
  induction hd generalizing a with
  | nil => rfl
  | cons hc _ ih =>
    rw [List.cons_append, readAddr, readAddr, addDigit_eq hc]
    exact ih _

/-- **Digits behind one that is not zero**: a capital one loses what is in front of it, and nothing
makes up for that. -/
lemma readAddr_behind (hd : List.Forall₂ Hex.Digit digits ks) (hv : 0 < v) (hle : a ≤ v)
    (hsmall : valueFromDigits v ks < 2 ^ 32) :
    (readAddr digits a).1 ≤ valueFromDigits v ks ∧
      ((readAddr digits a).1 = valueFromDigits v ks ↔ a = v ∧ ∀ c ∈ digits, ¬Capital c) := by
  induction hd generalizing a v with
  | nil => exact ⟨hle, by simp [readAddr, valueFromDigits]⟩
  | @cons c k digits ks hc _ ih =>
    have hnext : valueFromDigits v (k :: ks) = valueFromDigits (v * 16 + k) ks := rfl
    rw [hnext] at hsmall ⊢
    have hbound := le_valueFromDigits (v * 16 + k) ks
    rw [readAddr, addDigit_eq hc]
    dsimp only
    by_cases hcap : Capital c
    · rw [if_pos hcap, wrap32_of_lt (by omega)]
      obtain ⟨hle', hiff⟩ := ih (a := a * 15 + k) (v := v * 16 + k) (by omega) (by omega) hsmall
      refine ⟨hle', hiff.trans ⟨fun h => by omega, fun h => ?_⟩⟩
      exact absurd hcap (h.2 c List.mem_cons_self)
    · rw [if_neg hcap, wrap32_of_lt (by omega)]
      obtain ⟨hle', hiff⟩ := ih (a := a * 16 + k) (v := v * 16 + k) (by omega) (by omega) hsmall
      refine ⟨hle', hiff.trans ?_⟩
      rw [List.forall_mem_cons]
      exact ⟨fun h => ⟨by omega, hcap, h.2⟩, fun h => ⟨by omega, h.2.2⟩⟩

/-- **An address is read right** if and only if no capital digit is behind a digit other than
zero. -/
lemma readAddr_digits (hd : List.Forall₂ Hex.Digit digits ks) (hsmall : Hex.value ks < 2 ^ 32) :
    (readAddr digits 0).1 = Hex.value ks ↔ Plain digits := by
  induction hd with
  | nil => exact ⟨fun _ _ hc => absurd hc List.not_mem_nil, fun _ => rfl⟩
  | @cons c k digits ks hc hd ih =>
    have hnext : Hex.value (k :: ks) = valueFromDigits k ks := by
      rw [Hex.value, List.foldl_cons, Nat.zero_mul, Nat.zero_add]
      rfl
    rw [hnext] at hsmall ⊢
    have hbound := le_valueFromDigits k ks
    rw [readAddr, addDigit_eq hc, Nat.zero_mul, Nat.zero_add, wrap32_of_lt (by omega)]
    dsimp only
    by_cases hzero : c = 0x30
    · obtain rfl := (digit_zero_iff hc).mpr hzero
      exact (ih hsmall).trans (hzero ▸ plain_cons_zero digits).symm
    · have hpos : 0 < k := Nat.pos_of_ne_zero (mt (digit_zero_iff hc).mp hzero)
      rw [(readAddr_behind hd hpos le_rfl hsmall).2, plain_cons_of_ne hzero, and_iff_right rfl]

/-! ### The table -/

/-- The symbol that is read from a line. -/
def SymbolLine.symbol (l : SymbolLine) : Symbol := ⟨(readAddr l.digits 0).1, l.name⟩

/-- The table that a text leads to. -/
def symbolTable (ls : List SymbolLine) : List Symbol :=
  ls.map SymbolLine.symbol ++ [⟨0xffffffff, lastName⟩]

/-- A line is read. -/
lemma symbolLoop_line (hd : List.Forall₂ Hex.Digit digits ks) (hnewline : 0x0a ∉ name)
    (hshort : name.length < 128) (hlocal : ¬[0x2e, 0x4c] <+: name) (rest : List UInt8)
    (symbols : List Symbol) : symbolLoop (fuel + 1) (lineText digits name ++ rest) symbols =
      symbolLoop fuel rest (symbols ++ [⟨(readAddr digits 0).1, name⟩]) := by
  have htext : lineText digits name ++ rest = digits ++ 0x20 :: (name ++ 0x0a :: rest) := by
    simp [lineText]
  rw [symbolLoop, htext, readAddr_append hd]
  dsimp only
  rw [if_neg (by decide), copyUntil_append hnewline, if_pos ⟨by simp, hshort⟩, registerSymbol,
    if_neg hlocal]

/-- The lines of a list are read. -/
lemma symbolLoop_lines (ls : List SymbolLine) (symbols : List Symbol) :
    symbolLoop (fuel + ls.length) ((ls.flatMap fun l => lineText l.digits l.name) ++ rest) symbols =
      symbolLoop fuel rest (symbols ++ ls.map SymbolLine.symbol) := by
  induction ls generalizing symbols with
  | nil => rw [List.flatMap_nil, List.map_nil, List.append_nil]; rfl
  | cons l ls ih =>
    rw [List.flatMap_cons, List.append_assoc, List.length_cons, ← Nat.add_assoc,
      symbolLoop_line l.spelled l.no_newline l.name_short l.not_local, ih, List.map_cons,
      List.append_assoc]
    rfl

/-- A line has a byte at least. -/
lemma length_le_lines (ls : List SymbolLine) :
    ls.length ≤ (ls.flatMap fun l => lineText l.digits l.name).length := by
  induction ls with
  | nil => exact le_rfl
  | cons l ls ih =>
    rw [List.flatMap_cons, List.length_append, List.length_cons, lineText, List.length_append,
      List.length_cons]
    omega

/-- **The text of a list is read** into a table with a symbol for each line. -/
lemma initGlobalSymbols_text (ls : List SymbolLine) :
    initGlobalSymbols (symbolText ls) = .ok (symbolTable ls) := by
  have hlast : List.Forall₂ Hex.Digit (List.replicate 8 0x66) (List.replicate 8 15) := by
    have hdigit : Hex.Digit 0x66 15 := .inl rfl
    simp [List.replicate_succ, hdigit]
  obtain ⟨fuel, hfuel⟩ := Nat.exists_eq_add_of_le (length_le_lines ls)
  have hlength : (lineText (List.replicate 8 0x66) lastName).length = 16 := rfl
  have htext : (symbolText ls).length + 1 = fuel + 15 + 2 + ls.length := by
    rw [symbolText, List.length_append, hfuel, hlength]
    omega
  rw [initGlobalSymbols, htext, symbolText, symbolLoop_lines, ← List.append_nil (lineText _ _),
    symbolLoop_line hlast (by decide) (by decide) (by decide)]
  rfl

/-! ### The searches -/

/-- **The search for a name is right**: it returns the address of the first symbol of that name. -/
def NameRight (ls : List SymbolLine) (symbols : List Symbol) (name : List UInt8) : Prop :=
  resolveSymbolFromName symbols name =
    match ls.find? fun l => l.name = name with
    | some l => l.address
    | none => 0

/-- **The search for an address is right**: it returns the name of the last symbol that is not
behind the address, if the address is in front of the last symbol, and nothing in front of the
first. -/
def AddrRight (ls : List SymbolLine) (symbols : List Symbol) (beyond address : ℕ) : Prop :=
  (∀ first ∈ ls.head?, ∀ last ∈ ls.getLast?, first.address ≤ address → address < last.address →
    resolveSymbolFromAddr beyond symbols address =
      ((ls.filter fun l => l.address ≤ address).getLast?).map SymbolLine.name) ∧
  ∀ first ∈ ls.head?, address < first.address → resolveSymbolFromAddr beyond symbols address = none

/-- The search in a table is the one in the list, with the line behind it. -/
lemma find_symbolTable (ls : List SymbolLine) (hname : 0 ∉ name) :
    (symbolTable ls).find? (fun sym => strcmp name sym.name = 0) =
      ((ls.find? fun l => l.name = name).map SymbolLine.symbol).or
        (if name = lastName then some ⟨0xffffffff, lastName⟩ else none) := by
  have hline : ∀ l : SymbolLine, decide (strcmp name l.symbol.name = 0) = decide (l.name = name) :=
    fun l => decide_eq_decide.mpr ((strcmp_eq_zero hname l.no_zero).trans eq_comm)
  rw [symbolTable, List.find?_append, List.find?_map]
  congr 1
  · exact congrArg _ (congrArg (List.find? · ls) (funext hline))
  · have hlast : decide (strcmp name lastName = 0) = decide (name = lastName) :=
      decide_eq_decide.mpr (strcmp_eq_zero hname (by decide))
    rw [List.find?_singleton, hlast]
    simp only [decide_eq_true_eq]

/-- **A name is looked up right** if the address of its first symbol is, and if it is not that of
the line behind the list. -/
lemma nameRight_iff (ls : List SymbolLine) (hname : 0 ∉ name) :
    NameRight ls (symbolTable ls) name ↔ (name = lastName → ∃ l ∈ ls, l.name = name) ∧
      ∀ l ∈ ls.find? fun l => l.name = name, Plain l.digits := by
  rw [NameRight, resolveSymbolFromName, find_symbolTable ls hname]
  cases hfind : ls.find? fun l => l.name = name with
  | none =>
    have hmiss : ¬∃ l ∈ ls, l.name = name := fun ⟨l, hl, hl'⟩ =>
      absurd (decide_eq_true hl') (by simpa using List.find?_eq_none.mp hfind l hl)
    by_cases hlast : name = lastName
    · rw [if_pos hlast]
      exact ⟨fun h => absurd h (by decide), fun h => absurd (h.1 hlast) hmiss⟩
    · rw [if_neg hlast]
      exact ⟨fun _ => ⟨fun h => absurd h hlast, fun l hl => nomatch hl⟩, fun _ => rfl⟩
  | some l =>
    have hmem : ∃ l ∈ ls, l.name = name :=
      ⟨l, List.mem_of_find?_eq_some hfind, by simpa using List.find?_some hfind⟩
    have hread := readAddr_digits l.spelled (l.small.trans (by norm_num))
    constructor
    · intro h
      refine ⟨fun _ => hmem, fun l' hl' => ?_⟩
      obtain rfl := Option.some.inj hl'
      exact hread.mp h
    · exact fun h => hread.mpr (h.2 l rfl)

/-- **The search in a sorted table** with a last address that is skipped. -/
lemma resolveSymbolFromAddr_sorted {beyond address : ℕ} (hne : symbols ≠ [])
    (hsorted : symbols.Pairwise fun s t => s.address ≤ t.address)
    (hsmall : ∀ s ∈ symbols, s.address < 0xffffffff)
    (hlast : ∀ s ∈ symbols.getLast?, address < s.address) :
    resolveSymbolFromAddr beyond (symbols ++ [⟨0xffffffff, lastName⟩]) address =
      ((symbols.filter fun s => s.address ≤ address).getLast?).map Symbol.name := by
  induction symbols with
  | nil => exact absurd rfl hne
  | cons p symbols ih =>
    obtain ⟨hp, hsmall⟩ := List.forall_mem_cons.mp hsmall
    cases symbols with
    | nil =>
      have hlt : address < p.address := hlast p rfl
      have hfirst : ¬(p.address ≤ address ∧ address < 0xffffffff ∧
        (0xffffffff : ℕ) ≠ 0xffffffff) :=
        fun h => h.2.2 rfl
      rw [List.filter_cons_of_neg (by simpa using hlt)]
      change (if p.address ≤ address ∧ address < 0xffffffff ∧ (0xffffffff : ℕ) ≠ 0xffffffff
        then _ else if 0xffffffff ≤ address ∧ _ then _ else _) = _
      rw [if_neg hfirst, if_neg fun h => by omega]
      rfl
    | cons q symbols =>
      obtain ⟨hle, hsorted⟩ := List.pairwise_cons.mp hsorted
      have hpq : p.address ≤ q.address := hle q List.mem_cons_self
      have hq : q.address < 0xffffffff := hsmall q List.mem_cons_self
      have hrest := ih (List.cons_ne_nil q symbols) hsorted hsmall hlast
      have hstep : resolveSymbolFromAddr beyond
          (p :: q :: symbols ++ [⟨0xffffffff, lastName⟩]) address =
          if p.address ≤ address ∧ address < q.address ∧ q.address ≠ 0xffffffff then some p.name
          else resolveSymbolFromAddr beyond (q :: symbols ++ [⟨0xffffffff, lastName⟩])
            address := rfl
      rw [hstep]
      by_cases hbefore : address < q.address
      · -- the symbols from `q` on are behind the address
        have hnone : (q :: symbols).filter (fun s => s.address ≤ address) = [] := by
          refine List.filter_eq_nil_iff.mpr fun s hs => ?_
          rcases List.mem_cons.mp hs with rfl | hs
          · simpa using hbefore
          · have := (List.pairwise_cons.mp hsorted).1 s hs
            simp only [decide_eq_true_eq]
            omega
        by_cases hfirst : p.address ≤ address
        · rw [if_pos ⟨hfirst, hbefore, hq.ne⟩, List.filter_cons, if_pos (decide_eq_true hfirst),
            hnone]
          rfl
        · rw [if_neg fun h => hfirst h.1, hrest, hnone,
            List.filter_cons_of_neg (by simpa using hfirst), hnone]
      · -- the address is at or behind `q`, so the last symbol before it is not `p`
        have hsome : q ∈ (q :: symbols).filter fun s => s.address ≤ address :=
          List.mem_filter.mpr ⟨List.mem_cons_self, decide_eq_true (not_lt.mp hbefore)⟩
        have hfirst : p.address ≤ address := hpq.trans (not_lt.mp hbefore)
        rw [if_neg fun h => hbefore h.2.1, hrest, List.filter_cons (x := p),
          if_pos (decide_eq_true hfirst),
            List.getLast?_cons_of_ne_nil (List.ne_nil_of_mem hsome)]

/-- **An address is looked up right** if all addresses are read right. -/
lemma addrRight_of_plain {ls : List SymbolLine}
    (hsorted : ls.Pairwise fun l l' => l.address ≤ l'.address)
    (hplain : ∀ l ∈ ls, Plain l.digits) (beyond address : ℕ) :
    AddrRight ls (symbolTable ls) beyond address := by
  have hread : ∀ l ∈ ls, l.symbol.address = l.address := fun l hl =>
    (readAddr_digits l.spelled (l.small.trans (by norm_num))).mpr (hplain l hl)
  have hsearch : ∀ last ∈ ls.getLast?, address < last.address →
      resolveSymbolFromAddr beyond (symbolTable ls) address =
        ((ls.filter fun l => l.address ≤ address).getLast?).map SymbolLine.name := by
    intro last hlast hlt
    have hfilter : (ls.map SymbolLine.symbol).filter (fun s => s.address ≤ address) =
        (ls.filter fun l => l.address ≤ address).map SymbolLine.symbol := by
      rw [List.filter_map]
      refine congrArg _ (List.filter_congr fun l hl => ?_)
      rw [Function.comp_apply, hread l hl]
    have hmem : last ∈ ls := List.mem_of_getLast? hlast
    rw [symbolTable, resolveSymbolFromAddr_sorted, hfilter, List.getLast?_map, Option.map_map]
    · rfl
    · exact List.ne_nil_of_mem (List.mem_map_of_mem hmem)
    · refine List.pairwise_map.mpr (hsorted.imp_of_mem fun hl hl' hle => ?_)
      rwa [hread _ hl, hread _ hl']
    · rintro s hs
      obtain ⟨l, hl, rfl⟩ := List.mem_map.mp hs
      rw [hread l hl]
      exact l.small
    · rw [List.getLast?_map, hlast]
      rintro s hs
      obtain rfl := Option.some.inj hs
      rwa [hread last hmem]
  refine ⟨fun first _ last hlast _ hlt => hsearch last hlast hlt, fun first hfirst hlt => ?_⟩
  -- in front of the first symbol there is none
  have hle : ∀ l ∈ ls, first.address ≤ l.address := by
    intro l hl
    cases ls with
    | nil => exact absurd hl List.not_mem_nil
    | cons p ls =>
      obtain rfl := Option.some.inj hfirst
      rcases List.mem_cons.mp hl with rfl | hl
      · exact le_rfl
      · exact (List.pairwise_cons.mp hsorted).1 l hl
  obtain ⟨last, hlast⟩ : ∃ last, ls.getLast? = some last := by
    rw [← Option.isSome_iff_exists, List.getLast?_isSome]
    rintro rfl
    cases hfirst
  rw [hsearch last hlast (hlt.trans_le (hle last (List.mem_of_getLast? hlast))),
    List.filter_eq_nil_iff.mpr fun l hl => ?_]
  · rfl
  · simpa using hlt.trans_le (hle l hl)

/-- **Symbols resolve**: a name just where the address of its first symbol has no capital digit
behind a digit other than zero and the name is not `xxxxxx` unless a symbol is called so, and all
addresses where this holds of all digits. -/
theorem symbols_resolve_iff {ls : List SymbolLine}
    (hsorted : ls.Pairwise fun l l' => l.address ≤ l'.address) :
    ∃ symbols, initGlobalSymbols (symbolText ls) = .ok symbols ∧
      (∀ name, 0 ∉ name → (NameRight ls symbols name ↔
        (name = lastName → ∃ l ∈ ls, l.name = name) ∧
          ∀ l ∈ ls.find? fun l => l.name = name, Plain l.digits)) ∧
      ((∀ l ∈ ls, Plain l.digits) → ∀ beyond address, AddrRight ls symbols beyond address) :=
  ⟨symbolTable ls, initGlobalSymbols_text ls, fun _ hname => nameRight_iff ls hname,
    fun hplain => addrRight_of_plain hsorted hplain⟩

/-- The line `20 g`. -/
def plainLine : SymbolLine where
  digits := [0x32, 0x30]
  values := [2, 0]
  name := [0x67]
  spelled := .cons (.inl rfl) (.cons (.inl rfl) .nil)
  small := by decide
  name_ne_nil := by decide
  name_short := by decide
  no_newline := by decide
  no_zero := by decide
  not_local := by decide

/-- The line `1A f`. -/
def capitalLine : SymbolLine where
  digits := [0x31, 0x41]
  values := [1, 10]
  name := [0x66]
  spelled := .cons (.inl rfl) (.cons (.inr rfl) .nil)
  small := by decide
  name_ne_nil := by decide
  name_short := by decide
  no_newline := by decide
  no_zero := by decide
  not_local := by decide

/-- One symbol is found by its name, and by an address in it. -/
theorem symbols_resolve_plain :
    ∃ symbols, initGlobalSymbols (symbolText [plainLine]) = .ok symbols ∧
      NameRight [plainLine] symbols [0x67] ∧ AddrRight [plainLine] symbols 0 0x1f := by
  obtain ⟨symbols, hinit, hname, haddr⟩ := symbols_resolve_iff (List.pairwise_singleton _ plainLine)
  have hplain : Plain plainLine.digits := by decide
  refine ⟨symbols, hinit, (hname _ (by decide)).mpr ⟨fun h => absurd h (by decide), fun l hl => ?_⟩,
    haddr (fun l hl => ?_) _ _⟩
  · obtain rfl := Option.some.inj hl
    exact hplain
  · rw [List.mem_singleton.mp hl]
    exact hplain

/-- **A capital digit is read wrong**: the symbol `f` at `1A` is found at `19`, by its name and by
its address; and `xxxxxx` is found. -/
theorem capital_digit_misread :
    initGlobalSymbols (symbolText [capitalLine, plainLine]) =
      .ok (symbolTable [capitalLine, plainLine]) ∧
    ¬NameRight [capitalLine, plainLine] (symbolTable [capitalLine, plainLine]) [0x66] ∧
    ¬AddrRight [capitalLine, plainLine] (symbolTable [capitalLine, plainLine]) 0 0x19 ∧
    ¬NameRight [capitalLine, plainLine] (symbolTable [capitalLine, plainLine]) lastName := by
  refine ⟨initGlobalSymbols_text _, ?_, fun h => ?_, ?_⟩
  · rw [nameRight_iff _ (by decide)]
    exact fun h => absurd (h.2 capitalLine rfl) (by decide)
  · exact absurd (h.2 capitalLine rfl (by decide)) (by decide)
  · rw [nameRight_iff _ (by decide)]
    exact fun h => absurd (h.1 rfl) (by decide)

end MicroOS
