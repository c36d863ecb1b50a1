import MicroOS.Lib.Run
import MicroOS.Net.Payload

/-!
The cache of `net/arp.c`.

* `ArpMessage`, `arpMessage`: a message, and how it is read from a frame;
* `ArpCache`: the entries, never more than the arrays have room for;
* `arpEtherframeRecv`: what a frame does, `arpGetMacFromCache`: a lookup;
* `announces`: the answer that a frame brings; `arpReceive_eq` says what it does to the cache;
* `arp_latest_iff`: **in which runs the cache reflects the latest answers**.
-/

namespace MicroOS

open ByteImage Run

/-! ### Messages -/

/-- `arp_message_t`, its fields as the little-endian numbers that the code compares. -/
structure ArpMessage where
  hardwareType : ℕ
  protocol : ℕ
  hardwareAddressSize : ℕ
  protocolAddressSize : ℕ
  command : ℕ
  srcMac : ℕ
  srcIp : ℕ
  destMac : ℕ
  destIp : ℕ
  deriving DecidableEq

/-- `sizeof(arp_message_t)`. -/
def arpMessageSize : ℕ := 28

/-- The message at the start of a payload. -/
def arpMessage (payload : ℕ → UInt8) : ArpMessage where
  hardwareType := leValue payload 0 2
  protocol := leValue payload 2 2
  hardwareAddressSize := leValue payload 4 1
  protocolAddressSize := leValue payload 5 1
  command := leValue payload 6 2
  srcMac := leValue payload 8 6
  srcIp := leValue payload 14 4
  destMac := leValue payload 18 6
  destIp := leValue payload 24 4

/-! ### The cache -/

/-- `CACHE_SIZE`. -/
def arpCacheSize : ℕ := 128

/-- An element of `ip_cache` and `mac_cache`. -/
structure ArpEntry where
  ip : ℕ
  mac : ℕ
  deriving DecidableEq

/-- The elements of `ip_cache` and `mac_cache` in use. -/
structure ArpCache where
  entries : List ArpEntry
  length_le : entries.length ≤ arpCacheSize

/-- `ip` and `mac` of the driver. -/
structure ArpHost where
  ip : ℕ
  mac : ℕ

/-- The address of a broadcast, which stands for no address. -/
def broadcastMac : ℕ := 0xFFFFFFFFFFFF

/-- `arp_get_mac_from_cache`. -/
def arpGetMacFromCache (cache : ArpCache) (ip : ℕ) : ℕ :=
  match cache.entries.find? fun e => e.ip = ip with
  | some e => e.mac
  | none => broadcastMac

/-- The case of a response: an entry behind the others, as long as there is room. -/
def ArpCache.record (cache : ArpCache) (e : ArpEntry) : ArpCache :=
  if h : cache.entries.length < arpCacheSize then
    ⟨cache.entries ++ [e], by rw [List.length_append]; exact h⟩
  else cache

/-- The case of a request: the message that is sent back. -/
def ArpMessage.answer (host : ArpHost) (arp : ArpMessage) : ArpMessage :=
  { arp with
    command := 0x0200, destIp := arp.srcIp, destMac := arp.srcMac, srcIp := host.ip,
    srcMac := host.mac }

/-- `arp_etherframe_recv`: the cache, and the message that is sent. -/
def arpEtherframeRecv (host : ArpHost) (cache : ArpCache) (payload : List UInt8) :
    ArpCache × Option ArpMessage :=
  if payload.length < arpMessageSize then (cache, none)
  else
    let arp := arpMessage (payloadMem payload fun _ => 0)
    if arp.hardwareType = 0x0100 then
      if arp.protocol = 0x0008 ∧ arp.hardwareAddressSize = 6 ∧ arp.protocolAddressSize = 4 ∧
          arp.destIp = host.ip then
        if arp.command = 0x0100 then (cache, some (arp.answer host))
        else if arp.command = 0x0200 then (cache.record ⟨arp.srcIp, arp.srcMac⟩, none)
        else (cache, none)
      else (cache, none)
    else (cache, none)

/-- A frame is received. -/
def arpReceive (host : ArpHost) (cache : ArpCache) (payload : List UInt8) : ArpCache :=
  (arpEtherframeRecv host cache payload).1

/-- **The answer that a frame brings**: what a response to the host announces. -/
def announces (host : ArpHost) (payload : List UInt8) : Option ArpEntry :=
  let arp := arpMessage (payloadMem payload fun _ => 0)
  if arpMessageSize ≤ payload.length ∧ arp.hardwareType = 0x0100 ∧ arp.protocol = 0x0008 ∧
      arp.hardwareAddressSize = 6 ∧ arp.protocolAddressSize = 4 ∧ arp.destIp = host.ip ∧
      arp.command = 0x0200 then
    some ⟨arp.srcIp, arp.srcMac⟩
  else none

/-- **The cache reflects the latest answers** of a run: behind a frame that brings an answer, and
until another one for the same address arrives, the answer is what is looked up; and the lookups of
other addresses stay what they were. -/
def LatestAnswers (host : ArpHost) (cache : ArpCache) (frames : List (List UInt8)) : Prop :=
  (∀ l₁ a l₂ l₃ e, frames = l₁ ++ a :: (l₂ ++ l₃) → announces host a = some e →
    (∀ b ∈ l₂, ∀ e', announces host b = some e' → e'.ip ≠ e.ip) →
      arpGetMacFromCache ((l₁ ++ a :: l₂).foldl (arpReceive host) cache) e.ip = e.mac) ∧
  ∀ l₁ a l₂ e ip, frames = l₁ ++ a :: l₂ → announces host a = some e → ip ≠ e.ip →
    arpGetMacFromCache ((l₁ ++ [a]).foldl (arpReceive host) cache) ip =
      arpGetMacFromCache (l₁.foldl (arpReceive host) cache) ip

/-- What a frame must meet: the answer that it brings is what is looked up already, or it is the
first one for its address and there is room for it. -/
def TakesIn (host : ArpHost) (cache : ArpCache) (frame : List UInt8) : Prop :=
  ∀ e, announces host frame = some e → arpGetMacFromCache cache e.ip = e.mac ∨
    cache.entries.length < arpCacheSize ∧ ∀ x ∈ cache.entries, x.ip ≠ e.ip

section Cache

variable {host : ArpHost} {cache : ArpCache} {payload : List UInt8} {e : ArpEntry} {ip : ℕ}

/-- **A frame** records the answer that it brings, if it brings one. -/
lemma arpReceive_eq : arpReceive host cache payload =
    match announces host payload with
    | some e => cache.record e
    | none => cache := by
  rw [arpReceive, arpEtherframeRecv, announces]
  dsimp only
  -- the tests of the source, one after the other, against all of them at once
  split_ifs <;> first | rfl | omega

/-- What is found stays what is found. -/
lemma arpGetMacFromCache_record : arpGetMacFromCache (cache.record e) ip =
    if e.ip = ip ∧ cache.entries.length < arpCacheSize ∧ ∀ x ∈ cache.entries, x.ip ≠ ip then e.mac
    else arpGetMacFromCache cache ip := by
  rw [ArpCache.record]
  by_cases hroom : cache.entries.length < arpCacheSize
  · rw [dif_pos hroom, arpGetMacFromCache, arpGetMacFromCache]
    dsimp only
    rw [List.find?_append]
    cases hfind : cache.entries.find? fun x => x.ip = ip with
    | some x =>
      have hx : x.ip = ip := by simpa using List.find?_some hfind
      rw [if_neg fun h => h.2.2 x (List.mem_of_find?_eq_some hfind) hx]
      rfl
    | none =>
      have hnone : ∀ x ∈ cache.entries, x.ip ≠ ip := by simpa using hfind
      rw [Option.none_or, List.find?_singleton]
      by_cases he : e.ip = ip
      · rw [if_pos (by simpa using he), if_pos ⟨he, hroom, hnone⟩]
      · rw [if_neg (by simpa using he), if_neg fun h => he h.1]
  · rw [dif_neg hroom, if_neg fun h => hroom h.2.1]

/-- The lookups of other addresses stay what they were. -/
lemma arpReceive_other (h : ∀ e, announces host payload = some e → e.ip ≠ ip) :
    arpGetMacFromCache (arpReceive host cache payload) ip = arpGetMacFromCache cache ip := by
  rw [arpReceive_eq]
  cases hann : announces host payload with
  | none => rfl
  | some e =>
    dsimp only
    rw [arpGetMacFromCache_record, if_neg fun hip => h e hann hip.1]

/-- **An answer is looked up** behind a frame just when the frame meets its condition. -/
lemma arpReceive_self (h : announces host payload = some e) :
    arpGetMacFromCache (arpReceive host cache payload) e.ip = e.mac ↔
      TakesIn host cache payload := by
  have htakes : TakesIn host cache payload ↔ arpGetMacFromCache cache e.ip = e.mac ∨
      cache.entries.length < arpCacheSize ∧ ∀ x ∈ cache.entries, x.ip ≠ e.ip := by
    refine ⟨fun htakes => htakes e h, fun he e' h' => ?_⟩
    obtain rfl := Option.some.inj (h.symm.trans h')
    exact he
  rw [htakes, arpReceive_eq, h]
  dsimp only
  rw [arpGetMacFromCache_record]
  split_ifs with hnew
  · exact ⟨fun _ => .inr hnew.2, fun _ => rfl⟩
  · exact ⟨.inl, fun hor => hor.resolve_right fun hnew' => hnew ⟨rfl, hnew'⟩⟩

/-- Until another answer for its address arrives, a lookup stays what it was. -/
lemma foldl_arpReceive_other {frames : List (List UInt8)}
    (h : ∀ b ∈ frames, ∀ e, announces host b = some e → e.ip ≠ ip) :
    arpGetMacFromCache (frames.foldl (arpReceive host) cache) ip = arpGetMacFromCache cache ip := by
  induction frames generalizing cache with
  | nil => rfl
  | cons b frames ih =>
    obtain ⟨hb, hframes⟩ := List.forall_mem_cons.mp h
    rw [List.foldl_cons, ih hframes, arpReceive_other hb]

end Cache

/-- **Runs whose latest answers are looked up**: those in which every answer, when it arrives, is
looked up already, or is the first one for its address and finds room. -/
theorem arp_latest_iff (host : ArpHost) (cache : ArpCache) (frames : List (List UInt8)) :
    LatestAnswers host cache frames ↔ Along (arpReceive host) cache frames (TakesIn host) := by
  constructor
  · rintro ⟨hlatest, -⟩ l₁ a l₂ hframes e he
    have hself := hlatest l₁ a [] l₂ e hframes he fun b hb => absurd hb List.not_mem_nil
    rw [List.foldl_append, List.foldl_cons, List.foldl_nil] at hself
    exact (arpReceive_self he).mp hself e he
  · intro hsteps
    refine ⟨fun l₁ a l₂ l₃ e hframes he hlater => ?_, fun l₁ a l₂ e ip _ he hip => ?_⟩
    · rw [List.foldl_append, List.foldl_cons, foldl_arpReceive_other hlater, arpReceive_self he]
      exact hsteps l₁ a (l₂ ++ l₃) hframes
    · rw [List.foldl_append, List.foldl_cons, List.foldl_nil]
      refine arpReceive_other fun e' he' => ?_
      obtain rfl := Option.some.inj (he.symm.trans he')
      exact hip.symm

/-- The host 10.0.2.15. -/
def exampleHost : ArpHost := { ip := 0x0f02000a, mac := 0x563412005452 }

/-- A response to the host 10.0.2.15 that announces a last byte of the address of 10.0.2.2. -/
def exampleAnswer (last : UInt8) : List UInt8 :=
  [0, 1, 8, 0, 6, 4, 0, 2] ++ [0x52, 0x55, 10, 0, 2, last] ++ [10, 0, 2, 2] ++
    [0x52, 0x54, 0, 0x12, 0x34, 0x56] ++ [10, 0, 2, 15]

/-- The second of two answers for an address is not looked up. -/
theorem second_answer_ignored :
    ¬ LatestAnswers exampleHost ⟨[], by decide⟩ [exampleAnswer 2, exampleAnswer 3] := by
  intro h
  have hlast := h.1 [exampleAnswer 2] (exampleAnswer 3) [] [] ⟨0x0202000a, 0x0302000a5552⟩ rfl
    (by decide) fun b hb => absurd hb List.not_mem_nil
  exact absurd hlast (by decide)

end MicroOS
