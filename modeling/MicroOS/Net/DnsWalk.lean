import MicroOS.Lib.Walk
import MicroOS.Net.DnsRecv

/-!
How the loops over names walk through the packet of a response.

* `nameHop`: where the loop goes from a position; `WalkEnds`: it stays in the packet and comes back
  to no position; `walkEnds_iff`: then it has a path;
* `nameLoop_path`: what the loop does on its path, and `exists_path_of_nameLoop`: a loop that
  returns has one;
* `dotLoop_ok_iff`: when the loop that makes dots of lengths stays in the page of a name;
* `readerReturns_iff`: when a reader of a name returns, with room for the name;
* `NameIn`, `NameCall`: the names of a response, where they stand; `NameCall.of_turns` says that the
  handler reads them;
* `dns_names_bounded_iff`: when the readers return on all of them.
-/

namespace MicroOS

open ByteImage ByteMem Checked

/-! ### The walk of the loop over a name -/

/-- Where the loop over a name goes next, as long as it stays in the packet. -/
def nameHop (packet : List UInt8) (i : ℕ) : Option ℕ :=
  match packet[i]? with
  | none => none
  | some b =>
    if b = 0 then none
    else if 192 ≤ b then packet[i + 1]?.map (pointerTarget b)
    else some (i + 1)

/-- What the loop reads at a position lies inside the packet. -/
def InsidePacket (packet : List UInt8) (i : ℕ) : Prop :=
  i < packet.length ∧ (192 ≤ packet.getD i 0 → i + 1 < packet.length)

instance (packet : List UInt8) (i : ℕ) : Decidable (InsidePacket packet i) :=
  inferInstanceAs (Decidable (_ ∧ _))

/-- The bytes of labels at positions. -/
def plainBytes (packet : List UInt8) (l : List ℕ) : List UInt8 :=
  (l.map fun i => packet.getD i 0).filter PlainByte

section Walk

open Walk

variable {σ : Type} {put : σ → UInt8 → Except Halt σ} {packet : List UInt8} {pos : ℕ} {l : List ℕ}

/-- A plain byte is one of the plain bytes. -/
lemma plainBytes_cons {i : ℕ} (h : PlainByte (packet.getD i 0)) :
    plainBytes packet (i :: l) = packet.getD i 0 :: plainBytes packet l := by
  exact List.filter_cons_of_pos (p := fun b => PlainByte b) (by simpa using h)

lemma plainBytes_cons_of_not {i : ℕ} (h : ¬ PlainByte (packet.getD i 0)) :
    plainBytes packet (i :: l) = plainBytes packet l := by
  exact List.filter_cons_of_neg (p := fun b => PlainByte b) (by simpa using h)

/-- A loop that returns walks inside the packet to an end. -/
lemma exists_path_of_nameLoop {fuel count : ℕ} {jumped : Bool} {s : σ} {r : Bool × ℕ × σ}
    (h : nameLoop (readIn packet) put fuel pos jumped count s = .ok r) :
    ∃ l, Path (nameHop packet) pos l ∧ ∀ i ∈ l, InsidePacket packet i := by
  induction fuel generalizing pos jumped count s with
  | zero => exact nomatch h
  | succ fuel ih =>
    rw [nameLoop, bind_eq_ok] at h
    obtain ⟨b, hb, h⟩ := h
    obtain ⟨hsome, hlt, hget⟩ := readIn_eq_ok hb
    by_cases hzero : b = 0
    · refine ⟨[pos], .last ?_, List.forall_mem_singleton.mpr ⟨hlt, fun htag => ?_⟩⟩
      · rw [nameHop, hsome]
        exact if_pos hzero
      · rw [hget, hzero] at htag
        exact absurd htag (by decide)
    · rw [if_neg hzero] at h
      by_cases htag : 192 ≤ b
      · rw [if_pos htag, bind_eq_ok] at h
        obtain ⟨c, hc, h⟩ := h
        obtain ⟨hsome', hlt', -⟩ := readIn_eq_ok hc
        obtain ⟨l, hl, hin⟩ := ih h
        refine ⟨pos :: l, .step ?_ hl, List.forall_mem_cons.mpr ⟨⟨hlt, fun _ => hlt'⟩, hin⟩⟩
        rw [nameHop, hsome]
        dsimp only
        rw [if_neg hzero, if_pos htag, hsome', Option.map_some]
      · rw [if_neg htag, bind_eq_ok] at h
        obtain ⟨t, -, h⟩ := h
        obtain ⟨l, hl, hin⟩ := ih h
        refine ⟨pos :: l, .step ?_ hl, List.forall_mem_cons.mpr ⟨⟨hlt, fun h => ?_⟩, hin⟩⟩
        · rw [nameHop, hsome]
          dsimp only
          rw [if_neg hzero, if_neg htag]
        · rw [hget] at h
          exact absurd h htag

/-- **The loop on its walk**: it puts the bytes of labels that it meets. -/
lemma nameLoop_path (put : σ → UInt8 → Except Halt σ) (hpath : Path (nameHop packet) pos l)
    (hin : ∀ i ∈ l, InsidePacket packet i) (jumped : Bool) (count : ℕ) :
    ∃ jumped' count', ∀ k s, nameLoop (readIn packet) put (l.length + k) pos jumped count s =
      (plainBytes packet l).foldlM put s >>= fun s => .ok (jumped', count', s) := by
  induction hpath generalizing jumped count with
  | @last pos hnone =>
    obtain ⟨hlt, htag⟩ := hin pos List.mem_cons_self
    refine ⟨jumped, count, fun k s => ?_⟩
    -- the path ends at a zero, since every other byte inside has a next one
    have hzero : packet.getD pos 0 = 0 := by
      by_contra hne
      rw [nameHop, List.getElem?_eq_getElem hlt, ← List.getD_eq_getElem _ 0 hlt] at hnone
      dsimp only at hnone
      rw [if_neg hne] at hnone
      split_ifs at hnone with h192
      rw [List.getElem?_eq_getElem (htag h192)] at hnone
      exact absurd hnone (by simp)
    have hend : plainBytes packet [pos] = [] := plainBytes_cons_of_not fun h => h.1 hzero
    rw [List.length_singleton, Nat.add_comm, nameLoop, readIn_of_lt hlt, ok_bind, if_pos hzero,
      hend]
    rfl
  | @step pos next l hsome hrest ih =>
    obtain ⟨⟨hlt, htag⟩, hin⟩ := List.forall_mem_cons.mp hin
    rw [nameHop, List.getElem?_eq_getElem hlt, ← List.getD_eq_getElem _ 0 hlt] at hsome
    dsimp only at hsome
    have hbyte := readIn_of_lt hlt
    set b := packet.getD pos 0 with hb
    by_cases hzero : b = 0
    · rw [if_pos hzero] at hsome
      exact absurd hsome (by simp)
    · rw [if_neg hzero] at hsome
      by_cases h192 : 192 ≤ b
      · rw [if_pos h192, List.getElem?_eq_getElem (htag h192),
          ← List.getD_eq_getElem _ 0 (htag h192), Option.map_some] at hsome
        obtain rfl := Option.some.inj hsome
        -- a pointer: nothing is put, and the walk goes on at its target
        obtain ⟨jumped', count', hloop⟩ := ih hin true count
        refine ⟨jumped', count', fun k s => ?_⟩
        have hskip : plainBytes packet (pos :: l) = plainBytes packet l :=
          plainBytes_cons_of_not fun h => UInt8.not_lt.mpr h192 h.2
        rw [List.length_cons, Nat.add_right_comm, nameLoop, hbyte, ok_bind, if_neg hzero,
          if_pos h192, readIn_of_lt (htag h192), ok_bind, hloop, hskip]
      · rw [if_neg h192] at hsome
        obtain rfl := Option.some.inj hsome
        -- any other byte is put, and the next one follows
        obtain ⟨jumped', count', hloop⟩ := ih hin jumped (if jumped then count else count + 1)
        refine ⟨jumped', count', fun k s => ?_⟩
        have hput : plainBytes packet (pos :: l) = b :: plainBytes packet l :=
          plainBytes_cons ⟨hzero, UInt8.not_le.mp h192⟩
        rw [List.length_cons, Nat.add_right_comm, nameLoop, hbyte, ok_bind, if_neg hzero,
          if_neg h192, hput, List.foldlM_cons, bind_assoc]
        exact congrArg _ (funext (hloop k))

/-- The loop never leaves the packet and never comes back to a position. -/
def WalkEnds (packet : List UInt8) (pos : ℕ) : Prop :=
  ∀ i, Leads (nameHop packet) pos i → InsidePacket packet i ∧ ¬ Returns (nameHop packet) i

/-- A walk that stays in the packet ends just when it meets no position twice. -/
lemma walkEnds_iff : WalkEnds packet pos ↔
    ∃ l, Path (nameHop packet) pos l ∧ ∀ i ∈ l, InsidePacket packet i := by
  constructor
  · intro h
    have hfin : {i | Leads (nameHop packet) pos i}.Finite :=
      (Set.finite_Iio packet.length).subset fun i hi => (h i hi).1.1
    obtain ⟨l, hl⟩ := (exists_path_iff hfin).mpr fun i hi => (h i hi).2
    exact ⟨l, hl, fun i hi => (h i (hl.mem_iff.mp hi)).1⟩
  · rintro ⟨l, hl, hin⟩ i hi
    obtain ⟨l', hl'⟩ := hl.suffix hi
    exact ⟨hin i (hl.mem_iff.mpr hi), hl'.not_returns⟩

end Walk

/-! ### The loop over the labels -/

/-- **A label of a name** starts at a position, on the way from another one: behind each label the
next one starts. -/
inductive LabelAt (x : List UInt8) : ℕ → ℕ → Prop where
  | here {i : ℕ} (inside : i < x.length) : LabelAt x i i
  | next {i k : ℕ} (inside : i < x.length)
      (rest : LabelAt x (i + charUnsigned (x.getD i 0) + 1) k) : LabelAt x i k

section Labels

variable {x : List UInt8} {name : ℕ → UInt8} {i n fuel : ℕ}

variable (name) in
/-- A label that ends inside the page is moved down, and the name behind it stays. -/
lemma shiftLabel_ok (h : i + n < pageSize) :
    ∃ name', shiftLabel n i name = .ok (i + n, name') ∧ ∀ j, i + n ≤ j → name' j = name j := by
  induction n generalizing i name with
  | zero => exact ⟨name, rfl, fun _ _ => rfl⟩
  | succ n ih =>
    obtain ⟨name', hshift, hsame⟩ : ∃ name',
        shiftLabel n (i + 1) (Function.update name i (name (i + 1))) = .ok (i + 1 + n, name') ∧
          ∀ j, i + 1 + n ≤ j → name' j = Function.update name i (name (i + 1)) j :=
      ih _ (by omega)
    refine ⟨name', ?_, fun j hj => ?_⟩
    · rw [shiftLabel, if_pos (by omega), storeName_ok (by omega), ok_bind, hshift,
        Nat.add_right_comm, Nat.add_assoc]
    · rw [hsame j (by omega), Function.update_of_ne (by omega)]

variable (name) in
/-- A longer one leaves it. -/
lemma shiftLabel_error (h : pageSize ≤ i + n) (hn : 0 < n) :
    ∃ e, shiftLabel n i name = .error e := by
  induction n generalizing i name with
  | zero => exact absurd hn (Nat.lt_irrefl 0)
  | succ n ih =>
    rw [shiftLabel]
    by_cases hroom : i + 1 < pageSize
    · rw [if_pos hroom, storeName_ok (by omega), ok_bind]
      exact ih _ (by omega) (by omega)
    · rw [if_neg hroom]
      exact ⟨_, rfl⟩

/-- Shifting a label only goes forward. -/
lemma le_of_shiftLabel {r : ℕ × (ℕ → UInt8)} (h : shiftLabel n i name = .ok r) : i ≤ r.1 := by
  induction n generalizing i name with
  | zero =>
    obtain rfl := Except.ok.inj h
    exact le_rfl
  | succ n ih =>
    rw [shiftLabel] at h
    split_ifs at h
    obtain ⟨name', -, h⟩ := bind_eq_ok.mp h
    exact (Nat.le_succ i).trans (ih h)

/-- **The loop that makes dots of lengths** stays in the page just when every label ends there, and
then it ends behind the name. -/
lemma dotLoop_ok_iff (hname : ∀ j, i ≤ j → j < x.length → name j = x.getD j 0)
    (hroom : x.length < pageSize) (hfuel : x.length - i < fuel) :
    (∃ r, dotLoop x.length fuel i name = .ok r) ↔
      ∀ k, LabelAt x i k → k + charUnsigned (x.getD k 0) < pageSize := by
  induction fuel generalizing i name with
  | zero => exact absurd hfuel (Nat.not_lt_zero _)
  | succ fuel ih =>
    rw [dotLoop]
    by_cases hlt : i < x.length
    · rw [if_pos hlt, hname i le_rfl hlt]
      by_cases hfits : i + charUnsigned (x.getD i 0) < pageSize
      · obtain ⟨name₁, hshift, hsame⟩ := shiftLabel_ok name hfits
        rw [hshift, ok_bind]
        dsimp only
        rw [storeName_ok hfits, ok_bind, ih (fun j hj hend => ?_) (by omega)]
        · refine ⟨fun h k hk => ?_, fun h k hk => h k (.next hlt hk)⟩
          cases hk with
          | here _ => exact hfits
          | next _ rest => exact h k rest
        · rw [Function.update_of_ne (by omega), hsame j (by omega), hname j (by omega) hend]
      · refine iff_of_false ?_ fun h => hfits (h i (.here hlt))
        obtain ⟨e, he⟩ := shiftLabel_error name (Nat.not_lt.mp hfits) (by omega)
        rw [he]
        rintro ⟨r, hr⟩
        cases hr
    · rw [if_neg hlt]
      refine iff_of_true ⟨_, rfl⟩ fun k hk => ?_
      cases hk with
      | here h => exact absurd h hlt
      | next h _ => exact absurd h hlt

/-- Where it ends: behind the place that it starts at, and no further than the page. -/
lemma dotLoop_end {len : ℕ} {r : ℕ × (ℕ → UInt8)} (h : dotLoop len fuel i name = .ok r)
    (hi : i ≤ pageSize) : r.1 ≤ pageSize ∧ i ≤ r.1 ∧ (i < len → i < r.1) := by
  induction fuel generalizing i name with
  | zero => cases h
  | succ fuel ih =>
    rw [dotLoop] at h
    by_cases hlt : i < len
    · rw [if_pos hlt, bind_eq_ok] at h
      obtain ⟨⟨i₁, name₁⟩, hshift, h⟩ := h
      obtain ⟨name₂, hstore, h⟩ := bind_eq_ok.mp h
      have hle : i ≤ i₁ := le_of_shiftLabel hshift
      have hroom : i₁ < pageSize := by
        by_contra hfull
        rw [storeName_error (Nat.not_lt.mp hfull)] at hstore
        cases hstore
      obtain ⟨hend, hstart, -⟩ := ih h hroom
      exact ⟨hend, by omega, fun _ => by omega⟩
    · rw [if_neg hlt] at h
      obtain rfl := Except.ok.inj h
      exact ⟨hi, le_rfl, fun h => absurd h hlt⟩

end Labels

/-- A name that the page holds: it is not empty, there is a byte for the zero behind it, and every
label ends inside the page. -/
structure PageHolds (x : List UInt8) : Prop where
  ne_nil : x ≠ []
  room : x.length < pageSize
  labels : ∀ k, LabelAt x 0 k → k + charUnsigned (x.getD k 0) < pageSize

/-! ### Names of a response -/

/-- The two readers of names. -/
inductive NameReader where
  | skipName
  | hostnameToDomain

/-- A reader returns, reads only inside the packet, and writes only inside its page, whatever the
page holds. -/
def ReaderReturns (packet : List UInt8) (pos : ℕ) : NameReader → Prop
  | .skipName => ∃ fuel r, dnsResolvSkipName (readIn packet) fuel pos = .ok r
  | .hostnameToDomain =>
    ∀ page, ∃ fuel r, dnsResolvHostnameToDomain (readIn packet) fuel pos page = .ok r

/-- **What a reader needs**: a walk that ends and, with a page to fill, that the page holds the
bytes of labels on it. -/
def NameBounded (packet : List UInt8) (pos : ℕ) : NameReader → Prop
  | .skipName => WalkEnds packet pos
  | .hostnameToDomain => WalkEnds packet pos ∧
      ∀ l, Walk.Path (nameHop packet) pos l → PageHolds (plainBytes packet l)

/-- A loop that stores nothing returns. -/
lemma foldlM_unit (x : List UInt8) :
    x.foldlM (fun (_ : Unit) _ => (.ok () : Except Halt Unit)) () = .ok () := by
  induction x with
  | nil => rfl
  | cons b x ih => exact ih

/-- `dns_resolv_skip_name` returns just on the walks that end. -/
lemma dnsResolvSkipName_returns_iff {packet : List UInt8} {pos : ℕ} :
    (∃ fuel r, dnsResolvSkipName (readIn packet) fuel pos = .ok r) ↔ WalkEnds packet pos := by
  constructor
  · rintro ⟨fuel, r, h⟩
    obtain ⟨_, hloop, -⟩ := bind_eq_ok.mp h
    exact walkEnds_iff.mpr (exists_path_of_nameLoop hloop)
  · intro h
    obtain ⟨l, hl, hin⟩ := walkEnds_iff.mp h
    obtain ⟨jumped, count, hloop⟩ := nameLoop_path (fun (_ : Unit) _ => .ok ()) hl hin false 1
    refine ⟨l.length + 0, countPointer jumped count, ?_⟩
    rw [dnsResolvSkipName, hloop, foldlM_unit]
    rfl

/-- The page once the bytes of labels are in it, with the zero behind them. -/
def pageOf (page : ℕ → UInt8) (x : List UInt8) : ℕ → UInt8 :=
  Function.update (store (Function.update page 0 0) 0 x) x.length 0

/-- A page with plain bytes holds them as a string. -/
lemma isString_pageOf {x : List UInt8} (hx : ∀ b ∈ x, PlainByte b) (page : ℕ → UInt8) :
    IsString (pageOf page x) x := by
  refine ⟨fun hzero => (hx 0 hzero).1 rfl, holds_append.mpr ⟨?_, holds_cons.mpr ⟨?_, holds_nil⟩⟩⟩
  · refine holds_store.congr fun i _ hi => Function.update_of_ne ?_ _ _
    omega
  · rw [Nat.zero_add]
    exact Function.update_self _ _ _

/-- What `dns_resolv_hostname_to_domain` does with the bytes of labels in its page. -/
lemma finish_ok_iff {x : List UInt8} (hx : ∀ b ∈ x, PlainByte b) (hroom : x.length < pageSize)
    (page : ℕ → UInt8) :
    (∃ r name, dotLoop (strlenName (pageOf page x)) (strlenName (pageOf page x) + 1) 0
        (pageOf page x) = .ok r ∧ storeName r.2 (sub32 r.1 1) 0 = .ok name) ↔ PageHolds x := by
  have hstring := isString_pageOf hx page
  have hbytes : ∀ j, 0 ≤ j → j < x.length → pageOf page x j = x.getD j 0 := fun j _ hj => by
    have h := (holds_append.mp hstring.holds).1 j _ (List.getElem?_eq_getElem hj)
    rw [Nat.zero_add] at h
    rw [h, List.getD_eq_getElem _ _ hj]
  have hloop := dotLoop_ok_iff hbytes hroom (Nat.lt_succ_self (x.length - 0))
  rw [strlenName_eq hstring hroom]
  rw [Nat.sub_zero] at hloop
  constructor
  · rintro ⟨r, name, hdots, hlast⟩
    refine ⟨?_, hroom, hloop.mp ⟨r, hdots⟩⟩
    -- without a label the last store is in front of the page
    rintro rfl
    rw [dotLoop, if_neg (by simp)] at hdots
    obtain rfl := Except.ok.inj hdots
    rw [storeName_error (show pageSize ≤ sub32 0 1 by decide)] at hlast
    cases hlast
  · intro h
    obtain ⟨r, hdots⟩ := hloop.mpr h.labels
    obtain ⟨hend, -, hpos⟩ := dotLoop_end hdots (Nat.zero_le _)
    have hpos := hpos (List.length_pos_iff.mpr h.ne_nil)
    rw [pageSize] at hend
    refine ⟨r, _, hdots, storeName_ok ?_ 0⟩
    rw [sub32_of_le (by omega) (by omega), pageSize]
    omega

/-- `dns_resolv_hostname_to_domain` on a walk: it returns just when the page holds the bytes. -/
lemma dnsResolvHostnameToDomain_path_iff {packet : List UInt8} {pos : ℕ} {l : List ℕ}
    (hl : Walk.Path (nameHop packet) pos l) (hin : ∀ i ∈ l, InsidePacket packet i)
    (page : ℕ → UInt8) :
    (∃ fuel r, dnsResolvHostnameToDomain (readIn packet) fuel pos page = .ok r) ↔
      PageHolds (plainBytes packet l) := by
  have hplain : ∀ b ∈ plainBytes packet l, PlainByte b := fun b hb => by
    simpa using (List.mem_filter.mp hb).2
  obtain ⟨jumped, count, hloop⟩ := nameLoop_path putName hl hin false 1
  constructor
  · rintro ⟨fuel, r, h⟩
    rw [dnsResolvHostnameToDomain, storeName_ok (by decide), ok_bind, bind_eq_ok] at h
    obtain ⟨⟨jumped', count', p, name⟩, hread, h⟩ := h
    have hread := nameLoop_mono hread (Nat.le_add_left fuel l.length)
    have hfits : (plainBytes packet l).length ≤ pageSize := by
      by_contra hlong
      rw [hloop, putName_error (Nat.zero_le _) (by omega)] at hread
      cases hread
    rw [hloop, putName_ok (by omega), ok_bind, Nat.zero_add] at hread
    obtain ⟨rfl, rfl, rfl, rfl⟩ : jumped = jumped' ∧ count = count' ∧
        (plainBytes packet l).length = p ∧ _ = name := by
      simpa using hread
    obtain ⟨name₁, hend, h⟩ := bind_eq_ok.mp h
    have hroom : (plainBytes packet l).length < pageSize := by
      by_contra hfull
      rw [storeName_error (by omega)] at hend
      cases hend
    rw [storeName_ok hroom] at hend
    obtain rfl := Except.ok.inj hend
    obtain ⟨r', hdots, h⟩ := bind_eq_ok.mp h
    obtain ⟨name₂, hlast, -⟩ := bind_eq_ok.mp h
    exact (finish_ok_iff hplain hroom page).mp ⟨r', name₂, hdots, hlast⟩
  · intro h
    obtain ⟨r, name, hdots, hlast⟩ := (finish_ok_iff hplain h.room page).mpr h
    refine ⟨l.length + 0, (countPointer jumped count, name), ?_⟩
    rw [dnsResolvHostnameToDomain, storeName_ok (by decide), ok_bind, hloop,
      putName_ok (by have := h.room; omega), ok_bind, ok_bind]
    dsimp only
    rw [Nat.zero_add, storeName_ok h.room, ok_bind]
    exact bind_eq_ok.mpr ⟨r, hdots, bind_eq_ok.mpr ⟨name, hlast, rfl⟩⟩

/-- **The readers of names** return on the walks that end and, with a page to fill, whose bytes it
holds. -/
lemma readerReturns_iff {packet : List UInt8} {pos : ℕ} {reader : NameReader} :
    ReaderReturns packet pos reader ↔ NameBounded packet pos reader := by
  cases reader with
  | skipName => exact dnsResolvSkipName_returns_iff
  | hostnameToDomain =>
    constructor
    · intro h
      obtain ⟨fuel, r, hread⟩ := h fun _ => 0
      obtain ⟨page, -, hrest⟩ := bind_eq_ok.mp hread
      obtain ⟨_, hloop, -⟩ := bind_eq_ok.mp hrest
      have hends := walkEnds_iff.mpr (exists_path_of_nameLoop hloop)
      refine ⟨hends, fun l hl => ?_⟩
      exact (dnsResolvHostnameToDomain_path_iff hl (fun i hi => (hends i (hl.mem_iff.mp hi)).1)
        fun _ => 0).mp ⟨fuel, r, hread⟩
    · rintro ⟨hends, hholds⟩ page
      obtain ⟨l, hl, hin⟩ := walkEnds_iff.mp hends
      exact (dnsResolvHostnameToDomain_path_iff hl hin page).mpr (hholds l hl)

/-- **The names of so many records** from a position on, as they stand in memory: in front of a
record, and in the data of a record that is no address. A name is followed by what stands behind
its first zero or pointer. -/
inductive NameIn (mem : ℕ → UInt8) : ℕ → ℕ → ℕ → NameReader → Prop where
  | owner {k pos : ℕ} : NameIn mem (k + 1) pos pos .skipName
  | data {k pos n : ℕ} (owner : Extent mem pos n) (not_address : ¬ IsRecord mem 1 (pos + n)) :
      NameIn mem (k + 1) pos (pos + n + dnsResourceSize)
        (if IsRecord mem 5 (pos + n) then .hostnameToDomain else .skipName)
  | behindAddress {k pos n p : ℕ} {reader : NameReader} (owner : Extent mem pos n)
      (address : IsRecord mem 1 (pos + n))
      (rest : NameIn mem k (pos + n + dnsResourceSize + dataLen mem (pos + n)) p reader) :
      NameIn mem (k + 1) pos p reader
  | behindName {k pos n m p : ℕ} {reader : NameReader} (owner : Extent mem pos n)
      (not_address : ¬ IsRecord mem 1 (pos + n))
      (data : Extent mem (pos + n + dnsResourceSize) m)
      (rest : NameIn mem k (pos + n + dnsResourceSize + m) p reader) :
      NameIn mem (k + 1) pos p reader

/-- **The names that `dns_udp_recv` reads.** -/
def NameCall (mem : ℕ → UInt8) (p : ℕ) (reader : NameReader) : Prop :=
  ∃ pos, AnswersAt mem pos ∧ NameIn mem (ancount mem) pos p reader

/-- The names behind a turn of the loop over the answers. -/
lemma NameIn.of_turns {mem : ℕ → UInt8} {fuel k p : ℕ} {reader : NameReader}
    {pages : ℕ → ℕ → UInt8} {l : List ℕ} {s t : DnsAnswers}
    (h : l.foldlM (fun s i => dnsAnswerTurn mem fuel (pages i) s) s = .ok t)
    (hname : NameIn mem k t.name p reader) : NameIn mem (l.length + k) s.name p reader := by
  induction l generalizing s with
  | nil =>
    obtain rfl := Except.ok.inj h
    rwa [List.length_nil, Nat.zero_add]
  | cons i l ih =>
    rw [List.foldlM_cons, bind_eq_ok] at h
    obtain ⟨u, hturn, h⟩ := h
    obtain ⟨n, howner, -, hnext⟩ := dnsAnswerTurn_cases hturn
    have hrest := ih h
    rw [List.length_cons, Nat.add_right_comm]
    rcases hnext with ⟨haddress, hu⟩ | ⟨hother, m, hdata, hu⟩
    · exact .behindAddress howner haddress (hu ▸ hrest)
    · exact .behindName howner hother hdata (hu ▸ hrest)

/-- **The handler reads these names**: what it has in front of it after some turns is a name of the
response. -/
theorem NameCall.of_turns {mem : ℕ → UInt8} {fuel n p : ℕ} {reader : NameReader}
    {pages : ℕ → ℕ → UInt8} {s : DnsAnswers} (hle : n ≤ ancount mem)
    (h : dnsTurns mem fuel pages n = .ok s)
    (hname : NameIn mem (ancount mem - n) s.name p reader) : NameCall mem p reader := by
  obtain ⟨s₀, hquestion, hturns⟩ := bind_eq_ok.mp h
  have hname := NameIn.of_turns hturns hname
  rw [List.length_range, Nat.add_sub_cancel' hle] at hname
  exact ⟨s₀.name, ((dnsQuestion_eq_ok hquestion).2 _).mpr rfl, hname⟩

/-- **Responses whose names are bounded.** The readers return on the names of a response, read only
inside the packet and write only inside their pages, just when the walk over every name stays in
the packet, comes back to no position, and meets bytes of labels that a page holds where they are
written. -/
theorem dns_names_bounded_iff (packet : List UInt8) (beyond : ℕ → UInt8) :
    (∀ pos reader, NameCall (payloadMem packet beyond) pos reader →
        ReaderReturns packet pos reader) ↔
      ∀ pos reader, NameCall (payloadMem packet beyond) pos reader →
        NameBounded packet pos reader := by
  simp only [readerReturns_iff]

/-- A response with one answer, whose name is a pointer to itself. -/
def selfPointer : List UInt8 :=
  [0x0f, 0xf0, 0, 0, 0, 1, 0, 1, 0, 0, 0, 0] ++ [1, 97, 0] ++ [0, 1, 0, 1] ++ [192, 19]

/-- A pointer to itself is followed without end. -/
lemma nameLoop_self {σ : Type} {read : ℕ → Except Halt UInt8} {put : σ → UInt8 → Except Halt σ}
    {pos : ℕ} {b c : UInt8} (hb : read pos = .ok b) (hc : read (pos + 1) = .ok c) (htag : 192 ≤ b)
    (hself : pointerTarget b c = pos) (fuel : ℕ) (jumped : Bool) (count : ℕ) (s : σ) :
    nameLoop read put fuel pos jumped count s = .error .loops := by
  have hzero : b ≠ 0 := by
    rintro rfl
    exact absurd htag (by decide)
  induction fuel generalizing jumped with
  | zero => rfl
  | succ fuel ih =>
    rw [nameLoop, hb, ok_bind, if_neg hzero, if_pos htag, hc, ok_bind, hself]
    exact ih true

/-- A response whose only answer is a name that is the root. -/
def rootName : List UInt8 :=
  [0x0f, 0xf0, 0, 0, 0, 1, 0, 1, 0, 0, 0, 0] ++ [1, 97, 0] ++ [0, 1, 0, 1] ++
    ([0] ++ [0, 5, 0, 1, 0, 0, 0, 0, 0, 1] ++ [0])

/-- The answers behind a question of one letter. -/
lemma answersAt_letter {mem : ℕ → UInt8} (h : Holds mem 12 [1, 97, 0]) : AnswersAt mem 19 := by
  refine ⟨[1, 97], ⟨by decide, fun i b hb => ?_⟩, rfl⟩
  have hbyte := h i b hb
  rwa [Nat.zero_add]

/-- **A name that points to itself**: the loop over it does not return, and neither does the
handler. **A name that is the root**: the last store is in front of its page. -/
theorem self_pointer_loops :
    (NameCall (payloadMem selfPointer fun _ => 0) 19 .skipName ∧
      ¬ ReaderReturns selfPointer 19 .skipName ∧
      ∀ fuel pages dns, dnsUdpRecv (payloadMem selfPointer fun _ => 0) fuel pages dns =
        .error .loops) ∧
    NameCall (payloadMem rootName fun _ => 0) 30 .hostnameToDomain ∧
      ¬ ReaderReturns rootName 30 .hostnameToDomain := by
  have hstart : ∀ fuel, dnsQuestion (payloadMem selfPointer fun _ => 0) (fuel + 3) =
      .ok ⟨19, ⟨0, fun _ => 0, store (fun _ => 0) 0 [1, 97]⟩, false⟩ := fun fuel => rfl
  have hself : AnswersAt (payloadMem selfPointer fun _ => 0) 19 := answersAt_letter
    (holds_cons.mpr ⟨rfl, holds_cons.mpr ⟨rfl, holds_cons.mpr ⟨rfl, holds_nil⟩⟩⟩)
  have hroot : AnswersAt (payloadMem rootName fun _ => 0) 19 := answersAt_letter
    (holds_cons.mpr ⟨rfl, holds_cons.mpr ⟨rfl, holds_cons.mpr ⟨rfl, holds_nil⟩⟩⟩)
  refine ⟨⟨⟨19, hself, .owner⟩, ?_, fun fuel pages dns => ?_⟩, ⟨19, hroot, ?_⟩, fun h => ?_⟩
  · rintro ⟨fuel, r, h⟩
    rw [dnsResolvSkipName, nameLoop_self (b := 192) (c := 19) rfl rfl (by decide) (by decide)] at h
    cases h
  · rcases Nat.lt_or_ge fuel 3 with hfew | hmany
    · interval_cases fuel <;> rfl
    · obtain ⟨fuel, rfl⟩ : ∃ f, fuel = f + 3 := ⟨fuel - 3, by omega⟩
      have hskip : dnsResolvSkipName (readMem (payloadMem selfPointer fun _ => 0)) (fuel + 3) 19 =
          .error .loops := by
        rw [dnsResolvSkipName, nameLoop_self (b := 192) (c := 19) rfl rfl (by decide) (by decide)]
        rfl
      have hturns : dnsTurns (payloadMem selfPointer fun _ => 0) (fuel + 3) pages
          (ancount (payloadMem selfPointer fun _ => 0)) = .error .loops := by
        rw [dnsTurns, hstart, ok_bind,
          show ancount (payloadMem selfPointer fun _ => 0) = 1 from rfl, List.range_one,
          List.foldlM_cons, dnsAnswerTurn, hskip]
        rfl
      rw [dnsUdpRecv, hturns]
      rfl
  · have hcount : ancount (payloadMem rootName fun _ => 0) = 1 := by decide
    have hcname : IsRecord (payloadMem rootName fun _ => 0) 5 (19 + 1) := by decide
    have hdata := @NameIn.data (payloadMem rootName fun _ => 0) 0 19 1 (.zero (by decide))
      (by decide)
    rw [if_pos hcname] at hdata
    rw [hcount]
    exact hdata
  · obtain ⟨-, hholds⟩ := readerReturns_iff.mp h
    have hroot : nameHop rootName 30 = none := by decide
    exact (hholds [30] (.last hroot)).ne_nil (by decide)

end MicroOS
