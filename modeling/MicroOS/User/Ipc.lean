import MicroOS.Lib.Run

/-!
The messages of `user/libc/ipc.c`: two processes share a page, one sends and one receives.

* `Tunnel`: the shared page, `ipc_communication_tunnel_t` with the bytes behind it;
* `Ipc`: the page with the places the two programs are at; every load and every store of the page
  is a step of its own;
* `Synced`: the invariant: the host reads only while the client waits;
* `messages_in_order`: whatever the interleaving, the messages that are copied out are the first
  messages sent, no assertion fails, and a call that sends returns after its message was copied.
-/

namespace MicroOS

open Run

/-! ### The tunnel -/

/-- `IPC_HANDSHAKE_START`. -/
def ipcHandshakeStart : ℤ := 0

/-- `IPC_HANDSHAKE_ACK`. -/
def ipcHandshakeAck : ℤ := 1

/-- `IPC_CONNECTION_OK`. -/
def ipcConnectionOk : ℤ := 2

/-- `IPC_WAIT_FOR_ANSWER`. -/
def ipcWaitForAnswer : ℤ := 3

/-- The shared page: `state`, `sended_bytes`, and the bytes from `&tunnel[1]` on. The messages are
those that fit the page, so neither its end nor the range of `int` is ever reached. -/
structure Tunnel where
  state : ℤ
  sendedBytes : ℤ
  data : ℕ → UInt8

/-- The two programs; the scheduler picks one for every step. -/
inductive Party where
  | client
  | host
  deriving DecidableEq, Repr

/-! ### Sending and receiving -/

/-- The places in `ipc_message_send`. -/
inductive SendPc where
  /-- At the assertion. -/
  | check
  /-- At the store of `sended_bytes`. -/
  | size
  /-- In `memcpy`, that many bytes done. -/
  | copy (i : ℕ)
  /-- In the loop that waits for the answer. -/
  | poll
  /-- The assertion failed. -/
  | failed
  deriving DecidableEq, Repr

/-- The places in `ipc_message_ready` and `ipc_ok`. -/
inductive ReceivePc where
  /-- At the load of the state. -/
  | poll
  /-- At the load of `sended_bytes`. -/
  | size
  /-- In `memcpy`: that many bytes to go, and what is copied so far. -/
  | copy (n : ℤ) (out : List UInt8)
  /-- `ipc_message_ready` returned true; at the assertion of `ipc_ok`. -/
  | ready
  /-- At the store of the state. -/
  | answer
  /-- The assertion failed. -/
  | failed
  deriving DecidableEq, Repr

/-- The page, the two programs, how many calls of `ipc_message_send` returned, and what the calls
of `ipc_message_ready` that returned true have copied out. -/
structure Ipc where
  tunnel : Tunnel
  client : SendPc
  host : ReceivePc
  sent : ℕ
  received : List (List UInt8)

namespace Ipc

/-- One step of the client, which sends the messages in order with `ipc_message_send`. -/
def clientStep (msgs : List (List UInt8)) (s : Ipc) : Ipc :=
  match msgs[s.sent]? with
  | none => s
  | some m =>
    match s.client with
    | .check =>
      if s.tunnel.state = ipcConnectionOk then { s with client := .size }
      else { s with client := .failed }
    | .size =>
      { s with tunnel := { s.tunnel with sendedBytes := m.length }, client := .copy 0 }
    | .copy i =>
      match m[i]? with
      | some b =>
        { s with
          tunnel := { s.tunnel with data := Function.update s.tunnel.data i b }
          client := .copy (i + 1) }
      | none =>
        { s with tunnel := { s.tunnel with state := ipcWaitForAnswer }, client := .poll }
    | .poll =>
      if s.tunnel.state = ipcWaitForAnswer then s
      else { s with client := .check, sent := s.sent + 1 }
    | .failed => s

/-- One step of the host, which calls `ipc_message_ready` until it returns true, then `ipc_ok`. -/
def hostStep (s : Ipc) : Ipc :=
  match s.host with
  | .poll => if s.tunnel.state = ipcWaitForAnswer then { s with host := .size } else s
  | .size => { s with host := .copy s.tunnel.sendedBytes [] }
  | .copy n out =>
    if n = 0 then { s with host := .ready, received := s.received ++ [out] }
    else { s with host := .copy (n - 1) (out ++ [s.tunnel.data out.length]) }
  | .ready =>
    if s.tunnel.state = ipcWaitForAnswer then { s with host := .answer }
    else { s with host := .failed }
  | .answer => { s with tunnel := { s.tunnel with state := ipcConnectionOk }, host := .poll }
  | .failed => s

/-- One step. -/
def step (msgs : List (List UInt8)) (s : Ipc) : Party → Ipc
  | .client => s.clientStep msgs
  | .host => s.hostStep

/-- The tunnel is connected, nothing is sent yet. -/
def connected (sendedBytes : ℤ) (data : ℕ → UInt8) : Ipc :=
  ⟨⟨ipcConnectionOk, sendedBytes, data⟩, .check, .poll, 0, []⟩

/-! ### The invariant -/

/-- What the client has written of its message before it publishes it. -/
def Written (msgs : List (List UInt8)) (s : Ipc) : SendPc → Prop
  | .check => True
  | .size => ∃ m, msgs[s.sent]? = some m
  | .copy i => ∃ m, msgs[s.sent]? = some m ∧ i ≤ m.length ∧ s.tunnel.sendedBytes = m.length
      ∧ m.take i = (List.range i).map s.tunnel.data
  | .poll => False
  | .failed => False

/-- What the host has read of the message that the client waits for. -/
def Read (m : List UInt8) (before received : List (List UInt8)) : ReceivePc → Prop
  | .poll => received = before
  | .size => received = before
  | .copy n out => received = before ∧ out = m.take out.length ∧ out.length + n = m.length
  | .ready => received = before ++ [m]
  | .answer => received = before ++ [m]
  | .failed => False

/-- **The invariant.** The client writes while the host polls, then the host reads while the
client waits, then the client goes on. -/
inductive Synced (msgs : List (List UInt8)) (s : Ipc) : Prop
  | writing (state : s.tunnel.state = ipcConnectionOk) (host : s.host = .poll)
      (received : s.received = msgs.take s.sent) (written : s.Written msgs s.client)
  | reading (m : List UInt8) (message : msgs[s.sent]? = some m)
      (state : s.tunnel.state = ipcWaitForAnswer) (client : s.client = .poll)
      (size : s.tunnel.sendedBytes = m.length) (data : m = (List.range m.length).map s.tunnel.data)
      (read : Read m (msgs.take s.sent) s.received s.host)
  | answered (state : s.tunnel.state = ipcConnectionOk) (client : s.client = .poll)
      (host : s.host = .poll) (message : s.sent < msgs.length)
      (received : s.received = msgs.take (s.sent + 1))

variable {msgs : List (List UInt8)} {s : Ipc}

/-- The next message after those that were sent. -/
lemma take_message {m : List UInt8} {k : ℕ} (h : msgs[k]? = some m) :
    msgs.take (k + 1) = msgs.take k ++ [m] := by
  rw [List.take_add_one, h]
  rfl

/-- The client writes one more byte. -/
lemma copied_succ {m : List UInt8} {i : ℕ} {b : UInt8} {data : ℕ → UInt8} (hb : m[i]? = some b)
    (h : m.take i = (List.range i).map data) :
    m.take (i + 1) = (List.range (i + 1)).map (Function.update data i b) := by
  have hkeep : (List.range i).map (Function.update data i b) = (List.range i).map data :=
    List.map_congr_left fun j hj => Function.update_of_ne (List.mem_range.mp hj).ne b data
  rw [List.take_add_one, hb, List.range_succ, List.map_append, hkeep, h]
  simp

/-- The host reads one more byte. -/
lemma read_succ {m out : List UInt8} {data : ℕ → UInt8} (hdata : m = (List.range m.length).map data)
    (hout : out = m.take out.length) (hlt : out.length < m.length) :
    out ++ [data out.length] = m.take (out ++ [data out.length]).length := by
  have hb : m[out.length]? = some (data out.length) := by
    rw [hdata, List.getElem?_map, List.getElem?_range hlt]
    rfl
  rw [List.length_append, List.length_singleton, List.take_add_one, hb, ← hout]
  rfl

/-- **A step of the client.** -/
lemma Synced.clientStep (h : s.Synced msgs) : (s.clientStep msgs).Synced msgs := by
  cases hm : msgs[s.sent]? with
  | none =>
    have hstep : s.clientStep msgs = s := by rw [Ipc.clientStep, hm]
    exact hstep.symm ▸ h
  | some m =>
    cases h with
    | writing state host received written =>
      cases hc : s.client with
      | check =>
        simp only [Ipc.clientStep, hm, hc, if_pos state]
        exact .writing state host received ⟨m, hm⟩
      | size =>
        simp only [Ipc.clientStep, hm, hc]
        exact .writing state host received ⟨m, hm, Nat.zero_le _, rfl, rfl⟩
      | copy i =>
        rw [hc] at written
        obtain ⟨m', hm', hi, hsize, hcopied⟩ := written
        obtain rfl : m = m' := Option.some.inj (hm.symm.trans hm')
        cases hb : m[i]? with
        | some b =>
          have hlt : i < m.length := (List.getElem?_eq_some_iff.mp hb).1
          simp only [Ipc.clientStep, hm, hc, hb]
          exact .writing state host received ⟨m, hm, hlt, hsize, copied_succ hb hcopied⟩
        | none =>
          have hlen : m.length ≤ i := List.getElem?_eq_none_iff.mp hb
          obtain rfl : i = m.length := le_antisymm hi hlen
          rw [List.take_length] at hcopied
          simp only [Ipc.clientStep, hm, hc, hb]
          refine .reading m hm rfl rfl hsize hcopied ?_
          rw [host]
          exact received
      | poll => exact absurd written (by simp [hc, Written])
      | failed => exact absurd written (by simp [hc, Written])
    | reading m' message state client size data read =>
      have hstep : s.clientStep msgs = s := by
        simp only [Ipc.clientStep, hm, client, if_pos state]
      rw [hstep]
      exact .reading m' message state client size data read
    | answered state client host message received =>
      have hne : s.tunnel.state ≠ ipcWaitForAnswer := by
        rw [state]
        decide
      simp only [Ipc.clientStep, hm, client, if_neg hne]
      exact .writing state host received trivial

/-- **A step of the host.** -/
lemma Synced.hostStep (h : s.Synced msgs) : s.hostStep.Synced msgs := by
  -- where no message waits, the host only looks again
  have hpoll : s.tunnel.state = ipcConnectionOk → s.host = .poll → s.hostStep = s := by
    intro state host
    have hne : s.tunnel.state ≠ ipcWaitForAnswer := by
      rw [state]
      decide
    simp only [Ipc.hostStep, host, if_neg hne]
  cases h with
  | writing state host received written =>
    rw [hpoll state host]
    exact .writing state host received written
  | answered state client host message received =>
    rw [hpoll state host]
    exact .answered state client host message received
  | reading m message state client size data read =>
    cases hh : s.host with
    | poll =>
      rw [hh] at read
      simp only [Ipc.hostStep, hh, if_pos state]
      exact .reading m message state client size data read
    | size =>
      rw [hh] at read
      simp only [Ipc.hostStep, hh]
      exact .reading m message state client size data ⟨read, rfl, by simpa using size⟩
    | copy n out =>
      rw [hh] at read
      obtain ⟨hrec, hout, hn⟩ := read
      -- the last byte has been copied, or one more is
      by_cases h0 : n = 0
      · simp only [Ipc.hostStep, hh, if_pos h0]
        have hall : out = m := by
          rw [hout]
          exact List.take_of_length_le (by omega)
        refine .reading m message state client size data ?_
        show s.received ++ [out] = msgs.take s.sent ++ [m]
        rw [hrec, hall]
      · simp only [Ipc.hostStep, hh, if_neg h0]
        have hle : out.length ≤ m.length := by
          rw [hout, List.length_take]
          exact min_le_right _ _
        refine .reading m message state client size data ⟨hrec, ?_, ?_⟩
        · exact read_succ data hout (by omega)
        · rw [List.length_append, List.length_singleton]
          push_cast
          omega
    | ready =>
      rw [hh] at read
      simp only [Ipc.hostStep, hh, if_pos state]
      exact .reading m message state client size data read
    | answer =>
      rw [hh] at read
      simp only [Ipc.hostStep, hh]
      have hlt : s.sent < msgs.length := (List.getElem?_eq_some_iff.mp message).1
      refine .answered rfl client rfl hlt ?_
      rw [take_message message]
      exact read
    | failed => exact absurd read (by simp [hh, Read])

/-- A run in which the scheduler picks the parties in the given order. -/
def run (msgs : List (List UInt8)) (s : Ipc) (schedule : List Party) : Ipc :=
  schedule.foldl (step msgs) s

/-- **The invariant holds in every run.** -/
lemma synced_run (msgs : List (List UInt8)) (sendedBytes : ℤ) (data : ℕ → UInt8)
    (schedule : List Party) :
    (run msgs (connected sendedBytes data) schedule).Synced msgs := by
  refine foldl_invariant (Synced msgs) (fun s p h => ?_) ?_ schedule
  · cases p with
    | client => exact h.clientStep
    | host => exact h.hostStep
  · exact .writing rfl rfl rfl trivial

/-- What was copied out are the messages whose sending has returned, and maybe the next one. -/
lemma Synced.received_eq (h : s.Synced msgs) :
    s.received = msgs.take s.sent
      ∨ (s.sent < msgs.length ∧ s.received = msgs.take (s.sent + 1)) := by
  cases h with
  | writing state host received written => exact .inl received
  | answered state client host message received => exact .inr ⟨message, received⟩
  | reading m message state client size data read =>
    have hlt : s.sent < msgs.length := (List.getElem?_eq_some_iff.mp message).1
    have hnext := take_message message
    cases hh : s.host with
    | poll => exact .inl (by simpa [hh, Read] using read)
    | size => exact .inl (by simpa [hh, Read] using read)
    | copy n out =>
      rw [hh] at read
      exact .inl read.1
    | ready => exact .inr ⟨hlt, by simpa [hh, Read, hnext] using read⟩
    | answer => exact .inr ⟨hlt, by simpa [hh, Read, hnext] using read⟩
    | failed => exact absurd read (by simp [hh, Read])

/-- No assertion fails. -/
lemma Synced.not_failed (h : s.Synced msgs) : s.client ≠ .failed ∧ s.host ≠ .failed := by
  cases h with
  | writing state host received written =>
    refine ⟨fun hc => ?_, by simp [host]⟩
    rw [hc] at written
    exact written
  | answered state client host message received => simp [client, host]
  | reading m message state client size data read =>
    refine ⟨by simp [client], fun hh => ?_⟩
    rw [hh] at read
    exact read

/-- The messages whose sending has returned were sent. -/
lemma sent_le (msgs : List (List UInt8)) (sendedBytes : ℤ) (data : ℕ → UInt8)
    (schedule : List Party) :
    (run msgs (connected sendedBytes data) schedule).sent ≤ msgs.length := by
  refine foldl_invariant (fun s : Ipc => s.sent ≤ msgs.length) (fun s p h => ?_) (Nat.zero_le _)
    schedule
  cases p with
  | client =>
    rw [step, clientStep]
    cases hm : msgs[s.sent]? with
    | none => exact h
    | some m =>
      have hlt : s.sent < msgs.length := (List.getElem?_eq_some_iff.mp hm).1
      dsimp only
      split
      · split <;> exact h
      · exact h
      · split <;> exact h
      · split
        · exact h
        · exact hlt
      · exact h
  | host =>
    rw [step, hostStep]
    split
    · split <;> exact h
    · exact h
    · split <;> exact h
    · split <;> exact h
    · exact h
    · exact h

/-- **Messages arrive once and in order.** Whatever the interleaving, what was copied out are the
first messages sent, a call that sends has returned only after its message was copied out, and
neither assertion fails. -/
theorem messages_in_order (msgs : List (List UInt8)) (sendedBytes : ℤ) (data : ℕ → UInt8)
    (schedule : List Party) :
    let s := run msgs (connected sendedBytes data) schedule
    s.received <+: msgs ∧ s.sent ≤ s.received.length ∧ s.received.length ≤ s.sent + 1
      ∧ s.client ≠ .failed ∧ s.host ≠ .failed := by
  intro s
  have h : s.Synced msgs := synced_run msgs sendedBytes data schedule
  have hsent : s.sent ≤ msgs.length := sent_le msgs sendedBytes data schedule
  obtain hrec | ⟨hlt, hrec⟩ := h.received_eq
  · have hlen : s.received.length = min s.sent msgs.length := by rw [hrec, List.length_take]
    exact ⟨hrec ▸ List.take_prefix _ msgs, by omega, by omega, h.not_failed⟩
  · have hlen : s.received.length = min (s.sent + 1) msgs.length := by rw [hrec, List.length_take]
    exact ⟨hrec ▸ List.take_prefix _ msgs, by omega, by omega, h.not_failed⟩

/-- One message after the other, when the parties alternate. -/
example : (run [[72, 105], [33]] (connected 0 fun _ => 0)
    ((List.range 40).map fun i => if i % 2 = 0 then .client else .host)).received
      = [[72, 105], [33]] := by decide +kernel

end Ipc

end MicroOS
