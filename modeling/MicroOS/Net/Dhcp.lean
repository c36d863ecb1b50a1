import MicroOS.Lib.Walk
import MicroOS.Net.Payload

/-!
The options of a DHCP packet, in `net/dhcp.c`.

* `dhcpGetOptions`: the search for an option;
* `OptionsArea`: a well-formed options area, and `optionAt`: where the value of an option stands;
* `PaddedEvenly`: no pad is left over when pads are taken in pairs; `dhcpScan_items`: what the
  search does then;
* `optionHop`: the steps of the search; `dhcpGetOptions_inside_iff`: when it stays inside an area;
* `dhcp_options_found`: when options are found, and when the search ends inside the area.
-/

namespace MicroOS

open ByteImage ByteMem Checked

/-! ### The search -/

section Model

variable (read : ℕ → Except Halt UInt8) (type : UInt8)

/-- The loop of `dhcp_get_options`, with `options` and `curr_type`. -/
def dhcpScan : ℕ → ℕ → UInt8 → Except Halt (Option ℕ)
  | 0, _, _ => .error .loops
  | fuel + 1, options, currType =>
    if currType = 0xff then .ok none
    else do
      let len ← read (options + 1)
      if currType = type then return some (options + 2)
      else
        let options := options + (2 + len.toNat)
        dhcpScan fuel options (← read options)

/-- `dhcp_get_options`: where the value of the option stands in `packet->options`. -/
def dhcpGetOptions (fuel : ℕ) : Except Halt (Option ℕ) := do
  dhcpScan read type fuel 4 (← read 4)

end Model

/-! ### Options areas -/

/-- An option. -/
structure DhcpOption where
  type : UInt8
  value : List UInt8
  type_ne_pad : type ≠ 0
  type_ne_end : type ≠ 0xff
  length_lt : value.length < 256

/-- What stands in an options area. -/
inductive OptionItem where
  | pad
  | option (o : DhcpOption)

/-- The bytes of an item. -/
def OptionItem.bytes : OptionItem → List UInt8
  | .pad => [0]
  | .option o => o.type :: UInt8.ofNat o.value.length :: o.value

/-- The bytes of items. -/
def itemBytes (items : List OptionItem) : List UInt8 := items.flatMap OptionItem.bytes

/-- **A well-formed options area**: the cookie, pads and options, and the end; it fills the array of
the packet. -/
structure OptionsArea where
  cookie : List UInt8
  items : List OptionItem
  behind : List UInt8
  cookie_length : cookie.length = 4
  length_eq : (cookie ++ (itemBytes items ++ 0xff :: behind)).length = 64

/-- The bytes of an area. -/
def OptionsArea.bytes (a : OptionsArea) : List UInt8 :=
  a.cookie ++ (itemBytes a.items ++ 0xff :: a.behind)

/-- Where the value of the first option of a type stands. -/
def optionAt (type : UInt8) : ℕ → List OptionItem → Option ℕ
  | _, [] => none
  | pos, .pad :: items => optionAt type (pos + 1) items
  | pos, .option o :: items =>
    if o.type = type then some (pos + 2) else optionAt type (pos + (2 + o.value.length)) items

/-- **Options are found**: whatever lies behind the area, the search for a type returns where the
value of its first option stands, and `NULL` if there is none. -/
def OptionsFound (a : OptionsArea) : Prop :=
  ∀ beyond type, type ≠ 0 → type ≠ 0xff → ∃ fuel,
    dhcpGetOptions (readMem (payloadMem a.bytes beyond)) type fuel = .ok (optionAt type 4 a.items)

/-- Pads come in pairs. -/
inductive PaddedEvenly : List OptionItem → Prop where
  | nil : PaddedEvenly []
  | pads {items : List OptionItem} (rest : PaddedEvenly items) :
      PaddedEvenly (.pad :: .pad :: items)
  | option {o : DhcpOption} {items : List OptionItem} (rest : PaddedEvenly items) :
      PaddedEvenly (.option o :: items)

/-- The types of the options. -/
def optionTypes : List OptionItem → List UInt8
  | [] => []
  | .pad :: items => optionTypes items
  | .option o :: items => o.type :: optionTypes items

/-! ### What the search finds -/

section Scan

variable {mem : ℕ → UInt8} {type : UInt8} {items : List OptionItem} {pos fuel fuel' : ℕ}
  {r : Option ℕ}

/-- With more fuel the search returns the same. -/
lemma dhcpScan_mono {read : ℕ → Except Halt UInt8} {b : UInt8}
    (h : dhcpScan read type fuel pos b = .ok r) (hle : fuel ≤ fuel') :
    dhcpScan read type fuel' pos b = .ok r := by
  induction fuel generalizing fuel' pos b with
  | zero => exact nomatch h
  | succ fuel ih =>
    obtain ⟨fuel', rfl⟩ : ∃ f, fuel' = f + 1 := ⟨fuel' - 1, by omega⟩
    rw [dhcpScan] at h ⊢
    by_cases hend : b = 0xff
    · rw [if_pos hend] at h ⊢
      exact h
    · rw [if_neg hend, bind_eq_ok] at h
      obtain ⟨len, hlen, h⟩ := h
      rw [if_neg hend, hlen, ok_bind]
      by_cases htype : b = type
      · rw [if_pos htype] at h ⊢
        exact h
      · rw [if_neg htype] at h ⊢
        obtain ⟨c, hc, h⟩ := bind_eq_ok.mp h
        dsimp only
        rw [hc, ok_bind]
        exact ih h (Nat.le_of_succ_le_succ hle)

/-- A turn of the search that goes on. -/
lemma dhcpScan_step (hend : mem pos ≠ 0xff) (htype : mem pos ≠ type) :
    dhcpScan (readMem mem) type (fuel + 1) pos (mem pos) =
      dhcpScan (readMem mem) type fuel (pos + (2 + (mem (pos + 1)).toNat))
        (mem (pos + (2 + (mem (pos + 1)).toNat))) := by
  rw [dhcpScan, if_neg hend, readMem, ok_bind, if_neg htype]
  rfl

/-- **Over items whose pads come in pairs** the search finds the first option of the type, or goes
on behind them. -/
lemma dhcpScan_items (h : PaddedEvenly items) (htype : type ≠ 0)
    (hmem : Holds mem pos (itemBytes items)) : ∃ k, ∀ fuel,
      dhcpScan (readMem mem) type (k + fuel) pos (mem pos) =
        match optionAt type pos items with
        | some p => .ok (some p)
        | none => dhcpScan (readMem mem) type fuel (pos + (itemBytes items).length)
            (mem (pos + (itemBytes items).length)) := by
  induction h generalizing pos with
  | nil => exact ⟨0, fun fuel => by rw [Nat.zero_add]; rfl⟩
  | @pads items rest ih =>
    obtain ⟨hfirst, hmem⟩ :=
      holds_cons.mp (show Holds mem pos (0 :: 0 :: itemBytes items) from hmem)
    obtain ⟨hsecond, hmem⟩ := holds_cons.mp hmem
    obtain ⟨k, hk⟩ := ih hmem
    refine ⟨k + 1, fun fuel => ?_⟩
    have hlen : pos + (itemBytes (.pad :: .pad :: items)).length =
        pos + 1 + 1 + (itemBytes items).length := by
      rw [show (itemBytes (.pad :: .pad :: items)).length = (itemBytes items).length + 2 from rfl]
      omega
    rw [Nat.add_right_comm, dhcpScan_step (by rw [hfirst]; decide)
      (by rw [hfirst]; exact htype.symm), hsecond, hlen]
    exact hk fuel
  | @option o items rest ih =>
    have hbytes : itemBytes (.option o :: items) =
        o.type :: UInt8.ofNat o.value.length :: (o.value ++ itemBytes items) := rfl
    rw [hbytes] at hmem
    obtain ⟨hfirst, hmem⟩ := holds_cons.mp hmem
    obtain ⟨hsecond, hmem⟩ := holds_cons.mp hmem
    -- an option is found, or jumped over by its length byte
    have hlength : (mem (pos + 1)).toNat = o.value.length := by
      rw [hsecond, UInt8.toNat_ofNat_of_lt' o.length_lt]
    rw [optionAt]
    by_cases hfound : o.type = type
    · refine ⟨1, fun fuel => ?_⟩
      rw [if_pos hfound, Nat.add_comm 1, dhcpScan, if_neg (by rw [hfirst]; exact o.type_ne_end),
        readMem, ok_bind, if_pos (hfirst.trans hfound)]
      rfl
    · obtain ⟨k, hk⟩ := ih (holds_append.mp hmem).2
      refine ⟨k + 1, fun fuel => ?_⟩
      have hlen : pos + (itemBytes (.option o :: items)).length =
          pos + (2 + o.value.length) + (itemBytes items).length := by
        rw [hbytes, List.length_cons, List.length_cons, List.length_append]
        omega
      rw [if_neg hfound, Nat.add_right_comm, dhcpScan_step (by rw [hfirst]; exact o.type_ne_end)
        (by rw [hfirst]; exact hfound), hlength, hlen]
      have hstart : pos + 1 + 1 + o.value.length = pos + (2 + o.value.length) := by omega
      rw [hstart] at hk
      exact hk fuel

/-- A search that returns has gone forward only. -/
lemma le_of_dhcpScan {p : ℕ} {b : UInt8}
    (h : dhcpScan (readMem mem) type fuel pos b = .ok (some p)) :
    pos + 2 ≤ p := by
  induction fuel generalizing pos b with
  | zero => exact nomatch h
  | succ fuel ih =>
    rw [dhcpScan] at h
    by_cases hend : b = 0xff
    · rw [if_pos hend] at h
      exact nomatch h
    · rw [if_neg hend, bind_eq_ok] at h
      obtain ⟨len, -, h⟩ := h
      by_cases htype : b = type
      · rw [if_pos htype] at h
        obtain rfl := Option.some.inj (Except.ok.inj h)
        exact le_rfl
      · rw [if_neg htype] at h
        obtain ⟨c, -, h⟩ := bind_eq_ok.mp h
        have := ih h
        omega

/-- Items whose pads do not come in pairs: behind a pad that is left over comes an option, or the
end. -/
lemma exists_odd_pad (h : ¬ PaddedEvenly items) : ∃ pre tail, PaddedEvenly pre ∧
    items = pre ++ .pad :: tail ∧ (tail = [] ∨ ∃ o rest, tail = .option o :: rest) := by
  induction items using List.twoStepInduction with
  | nil => exact absurd .nil h
  | singleton item =>
    cases item with
    | pad => exact ⟨[], [], .nil, rfl, .inl rfl⟩
    | option o => exact absurd (.option .nil) h
  | cons_cons first second items ih ih' =>
    cases first with
    | option o =>
      obtain ⟨pre, tail, hpre, heq, htail⟩ := ih' second fun hrest => h (.option hrest)
      exact ⟨.option o :: pre, tail, .option hpre, by rw [heq]; rfl, htail⟩
    | pad =>
      cases second with
      | option o => exact ⟨[], .option o :: items, .nil, rfl, .inr ⟨o, items, rfl⟩⟩
      | pad =>
        obtain ⟨pre, tail, hpre, heq, htail⟩ := ih fun hrest => h (.pads hrest)
        exact ⟨.pad :: .pad :: pre, tail, .pads hpre, by rw [heq]; rfl, htail⟩

/-- In memory without an end the search does not return. -/
lemma dhcpScan_zeros (hzero : ∀ i, pos ≤ i → mem i = 0) (htype : type ≠ 0) (fuel : ℕ) :
    dhcpScan (readMem mem) type fuel pos (mem pos) = .error .loops := by
  induction fuel generalizing pos with
  | zero => rfl
  | succ fuel ih =>
    have hfirst := hzero pos le_rfl
    rw [dhcpScan_step (by rw [hfirst]; decide) (by rw [hfirst]; exact htype.symm)]
    exact ih fun i hi => hzero i (by omega)

/-! ### Where options stand -/

/-- An option is in the first part of an area, or it is looked for behind it. -/
lemma optionAt_append (pre tail : List OptionItem) : optionAt type pos (pre ++ tail) =
    match optionAt type pos pre with
    | some p => some p
    | none => optionAt type (pos + (itemBytes pre).length) tail := by
  induction pre generalizing pos with
  | nil => rfl
  | cons item pre ih =>
    cases item with
    | pad =>
      rw [List.cons_append, optionAt, optionAt, ih]
      rw [show (itemBytes (.pad :: pre)).length = (itemBytes pre).length + 1 from rfl,
        Nat.add_assoc pos, Nat.add_comm 1]
    | option o =>
      rw [List.cons_append, optionAt, optionAt]
      by_cases hfound : o.type = type
      · rw [if_pos hfound, if_pos hfound]
      · have hbytes : (itemBytes (.option o :: pre)).length =
            2 + o.value.length + (itemBytes pre).length := by
          rw [show itemBytes (.option o :: pre) =
            o.type :: UInt8.ofNat o.value.length :: (o.value ++ itemBytes pre) from rfl,
            List.length_cons, List.length_cons, List.length_append]
          omega
        rw [if_neg hfound, if_neg hfound, ih, hbytes, Nat.add_assoc pos]

/-- There is an option of a type just when the type is among those of the options. -/
lemma optionAt_eq_none : optionAt type pos items = none ↔ type ∉ optionTypes items := by
  induction items generalizing pos with
  | nil => exact ⟨fun _ => List.not_mem_nil, fun _ => rfl⟩
  | cons item items ih =>
    cases item with
    | pad => exact ih
    | option o =>
      rw [optionAt, optionTypes, List.mem_cons, not_or, ← ih]
      by_cases hfound : o.type = type
      · rw [if_pos hfound]
        exact ⟨fun h => absurd h (Option.some_ne_none _), fun h => absurd hfound.symm h.1⟩
      · rw [if_neg hfound]
        exact ⟨fun h => ⟨fun h' => hfound h'.symm, h⟩, fun h => h.2⟩

/-- The types of two parts, one behind the other. -/
lemma optionTypes_append (pre tail : List OptionItem) :
    optionTypes (pre ++ tail) = optionTypes pre ++ optionTypes tail := by
  induction pre with
  | nil => rfl
  | cons item pre ih =>
    cases item with
    | pad => exact ih
    | option o => exact congrArg (o.type :: ·) ih

/-- An option has a byte at least. -/
lemma length_optionTypes (items : List OptionItem) :
    (optionTypes items).length ≤ (itemBytes items).length := by
  induction items with
  | nil => exact le_rfl
  | cons item items ih =>
    rw [itemBytes, List.flatMap_cons, List.length_append, ← itemBytes]
    cases item with
    | pad => exact ih.trans (Nat.le_add_left _ _)
    | option o =>
      rw [optionTypes, OptionItem.bytes, List.length_cons, List.length_cons]
      omega

/-- A short list of types misses one. -/
lemma exists_type (l : List UInt8) (h : l.length < 254) :
    ∃ type, type ≠ 0 ∧ type ≠ 0xff ∧ type ∉ l := by
  by_contra hall
  push Not at hall
  have hsub : (List.range 256).map UInt8.ofNat ⊆ 0 :: 0xff :: l := by
    intro type _
    by_cases hpad : type = 0
    · exact hpad ▸ List.mem_cons_self
    · by_cases hend : type = 0xff
      · exact hend ▸ List.mem_cons_of_mem _ List.mem_cons_self
      · exact List.mem_cons_of_mem _ (List.mem_cons_of_mem _ (hall type hpad hend))
  have hnodup : ((List.range 256).map UInt8.ofNat).Nodup := by
    refine List.Nodup.map_on (fun m hm n hn heq => ?_) List.nodup_range
    have hnat := congrArg UInt8.toNat heq
    rwa [UInt8.toNat_ofNat_of_lt' (List.mem_range.mp hm),
      UInt8.toNat_ofNat_of_lt' (List.mem_range.mp hn)] at hnat
  have hle := (hnodup.subperm hsub).length_le
  rw [List.length_map, List.length_range, List.length_cons, List.length_cons] at hle
  omega

end Scan

/-! ### Options that are found -/

section Found

variable {a : OptionsArea} {beyond : ℕ → UInt8}

/-- The items of an area, and what is behind them. -/
lemma holds_area (a : OptionsArea) (beyond : ℕ → UInt8) :
    Holds (payloadMem a.bytes beyond) 4 (itemBytes a.items ++ 0xff :: a.behind) := by
  have hall := holds_payloadMem a.bytes beyond
  rw [OptionsArea.bytes, holds_append, a.cookie_length, Nat.zero_add] at hall
  exact hall.2

/-- With pads that come in pairs options are found. -/
lemma optionsFound_of_even (h : PaddedEvenly a.items) : OptionsFound a := by
  intro beyond type hpad hend
  obtain ⟨hitems, hbehind⟩ := holds_append.mp (holds_area a beyond)
  obtain ⟨k, hk⟩ := dhcpScan_items h hpad hitems
  refine ⟨k + 1, ?_⟩
  rw [dhcpGetOptions, readMem, ok_bind, hk]
  cases optionAt type 4 a.items with
  | some p => rfl
  | none =>
    dsimp only
    rw [dhcpScan, if_pos (holds_cons.mp hbehind).1]

/-- The search over a left-over pad: it goes on behind as many bytes as the next byte says. -/
lemma dhcpScan_odd_pad {mem : ℕ → UInt8} {type : UInt8} {pre : List OptionItem} {pos fuel : ℕ}
    {r : Option ℕ} (hpre : PaddedEvenly pre) (htype : type ≠ 0)
    (hmem : Holds mem pos (itemBytes pre)) (hpad : mem (pos + (itemBytes pre).length) = 0)
    (hnone : optionAt type pos pre = none)
    (h : dhcpScan (readMem mem) type fuel pos (mem pos) = .ok r) :
    ∃ fuel next, next = pos + (itemBytes pre).length +
        (2 + (mem (pos + (itemBytes pre).length + 1)).toNat) ∧
      dhcpScan (readMem mem) type fuel next (mem next) = .ok r := by
  obtain ⟨k, hk⟩ := dhcpScan_items hpre htype hmem
  have hlong := dhcpScan_mono h (Nat.le_add_left fuel k)
  rw [hk, hnone] at hlong
  dsimp only at hlong
  cases fuel with
  | zero => exact nomatch h
  | succ fuel =>
    rw [dhcpScan_step (by rw [hpad]; decide) (by rw [hpad]; exact htype.symm)] at hlong
    exact ⟨fuel, _, rfl, hlong⟩

/-- **With a pad that is left over** an option is missed when no type occurs twice: the one behind
the pad, or one that is not there. -/
lemma even_of_optionsFound (hnodup : (optionTypes a.items).Nodup) (h : OptionsFound a) :
    PaddedEvenly a.items := by
  by_contra hodd
  obtain ⟨pre, tail, hpre, hitems, htail⟩ := exists_odd_pad hodd
  have hholds := holds_area a fun _ => 0
  have hlength := a.length_eq
  rw [List.length_append, a.cookie_length, hitems] at hlength
  have hfound := h fun _ => 0
  set mem := payloadMem a.bytes fun _ => 0 with hmem
  rw [hitems, itemBytes, List.flatMap_append, List.append_assoc, holds_append] at hholds
  rw [itemBytes, List.flatMap_append, List.append_assoc, List.length_append] at hlength
  obtain ⟨hcookie, htailHolds⟩ := hholds
  obtain ⟨hpad, hnext⟩ := holds_cons.mp
    (show Holds mem _ (0 :: (tail.flatMap OptionItem.bytes ++ 0xff :: a.behind)) from htailHolds)
  rcases htail with rfl | ⟨o, rest, rfl⟩
  · -- the length byte of the pad is the end, and the search leaves the area
    have hlen : mem (4 + (itemBytes pre).length + 1) = 0xff := (holds_cons.mp hnext).1
    obtain ⟨type, htype, hend, habsent⟩ := exists_type (optionTypes a.items)
      ((length_optionTypes _).trans_lt (by
        have := a.length_eq
        rw [List.length_append, List.length_append, List.length_cons] at this
        omega))
    obtain ⟨fuel, hsearch⟩ := hfound type htype hend
    have hnone : optionAt type 4 pre = none := by
      rw [optionAt_eq_none]
      rw [hitems, optionTypes_append] at habsent
      exact fun hin => habsent (List.mem_append_left _ hin)
    obtain ⟨fuel, next, rfl, hscan⟩ := dhcpScan_odd_pad hpre htype hcookie hpad hnone hsearch
    rw [dhcpScan_zeros (fun i hi => ?_) htype] at hscan
    · exact nomatch hscan
    · rw [hlen] at hi
      have h255 : (255 : UInt8).toNat = 255 := rfl
      rw [hmem, payloadMem, List.getD_eq_default]
      rw [OptionsArea.bytes, a.length_eq]
      omega
  · -- the option behind the pad is jumped over
    have hlen : mem (4 + (itemBytes pre).length + 1) = o.type := (holds_cons.mp hnext).1
    obtain ⟨fuel, hsearch⟩ := hfound o.type o.type_ne_pad o.type_ne_end
    rw [hitems, optionTypes_append] at hnodup
    have hnone : optionAt o.type 4 pre = none := by
      rw [optionAt_eq_none]
      exact fun hin => List.disjoint_of_nodup_append hnodup hin List.mem_cons_self
    have hat : optionAt o.type 4 a.items = some (4 + (itemBytes pre).length + 1 + 2) := by
      rw [hitems, optionAt_append, hnone]
      exact if_pos rfl
    rw [hat] at hsearch
    obtain ⟨fuel, next, rfl, hscan⟩ :=
      dhcpScan_odd_pad hpre o.type_ne_pad hcookie hpad hnone hsearch
    have := le_of_dhcpScan hscan
    omega

end Found

/-! ### Searches that stay inside -/

section Inside

open Walk

variable {area : List UInt8} {type b : UInt8} {i fuel : ℕ}

/-- Where the search goes next, as long as it stays in the area. -/
def optionHop (area : List UInt8) (type : UInt8) (i : ℕ) : Option ℕ :=
  match area[i]?, area[i + 1]? with
  | some b, some len => if b = 0xff ∨ b = type then none else some (i + (2 + len.toNat))
  | _, _ => none

/-- What the search reads at a position lies inside the area. -/
def InsideArea (area : List UInt8) (i : ℕ) : Prop :=
  i < area.length ∧ (area.getD i 0 ≠ 0xff → i + 1 < area.length)

/-- The search stops at the end, and at the type that it looks for. -/
lemma optionHop_of_stop (h : area[i]? = some b) (hstop : b = 0xff ∨ b = type) :
    optionHop area type i = none := by
  rw [optionHop, h]
  cases area[i + 1]? with
  | none => rfl
  | some len => exact if_pos hstop

/-- It goes on behind any other option. -/
lemma optionHop_of_next {len : UInt8} (h : area[i]? = some b) (hlen : area[i + 1]? = some len)
    (hend : b ≠ 0xff) (htype : b ≠ type) :
    optionHop area type i = some (i + (2 + len.toNat)) := by
  rw [optionHop, h, hlen]
  exact if_neg (not_or.mpr ⟨hend, htype⟩)

/-- A search that returns has read inside the area only. -/
lemma inside_of_dhcpScan {r : Option ℕ} (hb : readIn area i = .ok b)
    (h : dhcpScan (readIn area) type fuel i b = .ok r) {j : ℕ}
    (hj : Leads (optionHop area type) i j) : InsideArea area j := by
  induction fuel generalizing i b with
  | zero => exact nomatch h
  | succ fuel ih =>
    obtain ⟨hsome, hlt, hget⟩ := readIn_eq_ok hb
    rw [dhcpScan] at h
    by_cases hend : b = 0xff
    · obtain rfl := (leads_iff_of_none (optionHop_of_stop hsome (.inl hend))).mp hj
      exact ⟨hlt, fun hne => absurd (hget.trans hend) hne⟩
    · rw [if_neg hend, bind_eq_ok] at h
      obtain ⟨len, hlen, h⟩ := h
      obtain ⟨hsome', hlt', -⟩ := readIn_eq_ok hlen
      by_cases htype : b = type
      · obtain rfl := (leads_iff_of_none (optionHop_of_stop hsome (.inr htype))).mp hj
        exact ⟨hlt, fun _ => hlt'⟩
      · rw [if_neg htype] at h
        obtain ⟨c, hc, h⟩ := bind_eq_ok.mp h
        rcases (leads_iff (optionHop_of_next hsome hsome' hend htype)).mp hj with rfl | hj
        · exact ⟨hlt, fun _ => hlt'⟩
        · exact ih hc h hj

/-- A search whose steps stay inside the area returns: every step goes forward. -/
lemma exists_dhcpScan (h : ∀ j, Leads (optionHop area type) i j → InsideArea area j) :
    ∃ fuel r, dhcpScan (readIn area) type fuel i (area.getD i 0) = .ok r := by
  induction hn : area.length - i using Nat.strong_induction_on generalizing i with
  | _ n ih =>
    obtain ⟨hlt, hnext⟩ := h i .refl
    have hsome : area[i]? = some (area.getD i 0) := by
      rw [List.getElem?_eq_getElem hlt, List.getD_eq_getElem _ _ hlt]
    by_cases hend : area.getD i 0 = 0xff
    · exact ⟨1, none, by rw [dhcpScan, if_pos hend]⟩
    · have hlt' := hnext hend
      by_cases htype : area.getD i 0 = type
      · refine ⟨1, some (i + 2), ?_⟩
        rw [dhcpScan, if_neg hend, readIn_of_lt hlt', ok_bind, if_pos htype]
        rfl
      · have hsome' : area[i + 1]? = some (area.getD (i + 1) 0) := by
          rw [List.getElem?_eq_getElem hlt', List.getD_eq_getElem _ _ hlt']
        have hhop := optionHop_of_next hsome hsome' hend htype
        obtain ⟨hin, -⟩ := h _ (.single hhop)
        obtain ⟨fuel, r, hscan⟩ := ih _ (by omega) (fun j hj => h j (.head hhop hj)) rfl
        refine ⟨fuel + 1, r, ?_⟩
        rw [dhcpScan, if_neg hend, readIn_of_lt hlt', ok_bind, if_neg htype]
        dsimp only
        rw [readIn_of_lt hin, ok_bind, hscan]

/-- **The search stays inside the area** and returns just when its steps do. -/
lemma dhcpGetOptions_inside_iff : (∃ fuel r, dhcpGetOptions (readIn area) type fuel = .ok r) ↔
    ∀ j, Leads (optionHop area type) 4 j → InsideArea area j := by
  constructor
  · rintro ⟨fuel, r, h⟩ j hj
    obtain ⟨b, hb, h⟩ := bind_eq_ok.mp h
    exact inside_of_dhcpScan hb h hj
  · intro h
    obtain ⟨fuel, r, hscan⟩ := exists_dhcpScan h
    exact ⟨fuel, r, by rw [dhcpGetOptions, readIn_of_lt (h 4 .refl).1, ok_bind, hscan]⟩

end Inside

/-- **When options are found**: with pads that come in pairs, and where no type occurs twice only
then; and the search stays inside an area, and returns, just when its steps do. -/
theorem dhcp_options_found (a : OptionsArea) (area : List UInt8) (type : UInt8) :
    (PaddedEvenly a.items → OptionsFound a) ∧
      ((optionTypes a.items).Nodup → (OptionsFound a ↔ PaddedEvenly a.items)) ∧
      ((∃ fuel r, dhcpGetOptions (readIn area) type fuel = .ok r) ↔
        ∀ i, Walk.Leads (optionHop area type) 4 i → InsideArea area i) :=
  ⟨optionsFound_of_even, fun hnodup => ⟨even_of_optionsFound hnodup, optionsFound_of_even⟩,
    dhcpGetOptions_inside_iff⟩

/-- The message type, behind one pad. -/
def paddedArea : OptionsArea where
  cookie := [99, 130, 83, 99]
  items := [.pad, .option ⟨53, [2], by decide, by decide, by decide⟩]
  behind := List.replicate 55 0
  cookie_length := rfl
  length_eq := rfl

/-- The message type and the address mask, with two pads between them. -/
def evenArea : OptionsArea where
  cookie := [99, 130, 83, 99]
  items := [.option ⟨53, [2], by decide, by decide, by decide⟩, .pad, .pad,
    .option ⟨1, [255, 255, 255, 0], by decide, by decide, by decide⟩]
  behind := List.replicate 48 0
  cookie_length := rfl
  length_eq := rfl

/-- Both options are found. -/
theorem dhcp_options_found_even : OptionsFound evenArea :=
  (dhcp_options_found evenArea [] 0).1 (.option (.pads (.option .nil)))

/-- Behind one pad the message type is missed, and in an area of zeros the search leaves the
area. -/
theorem padded_option_missed : ¬ OptionsFound paddedArea ∧
    ∀ fuel r, dhcpGetOptions (readIn (List.replicate 64 0)) 53 fuel ≠ .ok r := by
  constructor
  · intro h
    have heven : PaddedEvenly paddedArea.items := even_of_optionsFound (by decide) h
    exact nomatch heven
  · intro fuel r h
    have hinside := dhcpGetOptions_inside_iff.mp ⟨fuel, r, h⟩
    have hleads : ∀ k ≤ 30, Walk.Leads (optionHop (List.replicate 64 0) 53) 4 (4 + 2 * k) := by
      intro k hk
      induction k with
      | zero => exact .refl
      | succ k ih =>
        refine (ih (by omega)).tail ?_
        have hbyte : ∀ i, i < 64 → (List.replicate 64 (0 : UInt8))[i]? = some 0 :=
          fun i hi => List.getElem?_replicate_of_lt hi
        exact optionHop_of_next (hbyte _ (by omega)) (hbyte _ (by omega)) (by decide) (by decide)
    exact absurd (hinside 64 (hleads 30 le_rfl)).1 (by simp)

end MicroOS
