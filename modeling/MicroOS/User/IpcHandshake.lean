import MicroOS.User.Ipc

/-!
The handshake of `user/libc/ipc.c`: `ipc_init_host`, called until it returns true, against one
`ipc_init`.

* `Handshake`: the state word, the places in the two programs and the values stored so far; every
  load and every store of the word is a step of its own.
* `ack_answered`: when the client acknowledges at no moment between the host's check and its store,
  the value after the acknowledgement is `IPC_CONNECTION_OK`.
* `ack_lost`: an acknowledgement between the two is overwritten, and both sides wait for good.
-/

namespace MicroOS

open Run

/-- The places in `ipc_init_host`, which is called again when it returns false. -/
inductive InitHostPc where
  /-- At the load of the state. -/
  | check
  /-- At the store of `IPC_HANDSHAKE_START`. -/
  | start
  /-- At the store of `IPC_CONNECTION_OK`. -/
  | accept
  /-- Returned true. -/
  | done
  deriving DecidableEq, Repr

/-- The places in `ipc_init`. -/
inductive InitPc where
  /-- In the loop that waits for `IPC_HANDSHAKE_START`. -/
  | awaitStart
  /-- At the store of `IPC_HANDSHAKE_ACK`. -/
  | ack
  /-- In the loop that waits for `IPC_CONNECTION_OK`. -/
  | awaitOk
  /-- Returned. -/
  | done
  deriving DecidableEq, Repr

/-- `tunnel->state`, the places in the programs, and what was stored, in order. -/
structure Handshake where
  state : ℤ
  host : InitHostPc
  client : InitPc
  stores : List ℤ
  deriving DecidableEq, Repr

namespace Handshake

/-- A store of the state word. -/
def store (s : Handshake) (v : ℤ) : Handshake :=
  { s with state := v, stores := s.stores ++ [v] }

/-- One step of the host. -/
def hostStep (s : Handshake) : Handshake :=
  match s.host with
  | .check =>
    if s.state ≠ ipcHandshakeAck then { s with host := .start } else { s with host := .accept }
  | .start => { s.store ipcHandshakeStart with host := .check }
  | .accept => { s.store ipcConnectionOk with host := .done }
  | .done => s

/-- One step of the client. -/
def clientStep (s : Handshake) : Handshake :=
  match s.client with
  | .awaitStart => if s.state ≠ ipcHandshakeStart then s else { s with client := .ack }
  | .ack => { s.store ipcHandshakeAck with client := .awaitOk }
  | .awaitOk => if s.state ≠ ipcConnectionOk then s else { s with client := .done }
  | .done => s

/-- One step. -/
def step (s : Handshake) : Party → Handshake
  | .client => s.clientStep
  | .host => s.hostStep

/-- A run in which the scheduler picks the parties in the given order. -/
def run (s : Handshake) (schedule : List Party) : Handshake :=
  schedule.foldl step s

/-- A freshly mapped page, whatever its state word. -/
def fresh (v : ℤ) : Handshake := ⟨v, .check, .awaitStart, []⟩

/-- The value stored next after an acknowledgement is `IPC_CONNECTION_OK`. -/
def Answered (s : Handshake) : Prop :=
  ∀ l v r, s.stores = l ++ ipcHandshakeAck :: v :: r → v = ipcConnectionOk

/-- The client is about to acknowledge while the host, having seen no acknowledgement, is about to
store `IPC_HANDSHAKE_START`. -/
def Race (s : Handshake) : Prop := s.client = .ack ∧ s.host = .start

instance (s : Handshake) : Decidable s.Race := inferInstanceAs (Decidable (_ ∧ _))

/-- **The invariant** of runs without a race, by the stages of the handshake. -/
inductive Orderly (s : Handshake) : Prop
  | before (client : s.client = .awaitStart ∨ s.client = .ack) (stores : ipcHandshakeAck ∉ s.stores)
      (started : s.client = .ack → s.state = ipcHandshakeStart ∧
        (s.host = .check ∨ s.host = .start))
      (accepted : s.host = .accept ∨ s.host = .done →
        s.client = .awaitStart ∧ s.state ≠ ipcHandshakeStart)
  | acked (client : s.client = .awaitOk) (host : s.host = .check ∨ s.host = .accept)
      (state : s.state = ipcHandshakeAck)
      (stores : ∃ l, s.stores = l ++ [ipcHandshakeAck] ∧ ipcHandshakeAck ∉ l)
  | accepted (client : s.client = .awaitOk ∨ s.client = .done) (host : s.host = .done)
      (stores : ∃ l, s.stores = l ++ [ipcHandshakeAck, ipcConnectionOk] ∧ ipcHandshakeAck ∉ l)

variable {s : Handshake}

/-- **A step of the host.** -/
lemma Orderly.hostStep (h : s.Orderly) : s.hostStep.Orderly := by
  cases h with
  | before client stores started accepted =>
    cases hh : s.host with
    | check =>
      by_cases hack : s.state = ipcHandshakeAck
      · -- the answer is there, so the client still waits for the start
        have hstate : s.state ≠ ipcHandshakeStart := by
          rw [hack]
          decide
        have hclient : s.client = .awaitStart :=
          client.resolve_right fun hc => hstate (started hc).1
        simp only [Handshake.hostStep, hh, hack, ne_eq, not_true_eq_false, if_false]
        refine .before client stores (fun hc => ?_) fun _ => ⟨hclient, hack ▸ hstate⟩
        exact absurd (hclient.symm.trans hc) (by decide)
      · simp only [Handshake.hostStep, hh, ne_eq, hack, not_false_eq_true, if_true]
        refine .before client stores (fun hc => ⟨(started hc).1, .inr rfl⟩) fun h => ?_
        exact absurd h (by simp)
    | start =>
      simp only [Handshake.hostStep, hh]
      refine .before client ?_ (fun _ => ⟨rfl, .inl rfl⟩) fun h => absurd h (by simp)
      exact fun hmem => (List.mem_append.mp hmem).elim stores (by decide)
    | accept =>
      obtain ⟨hclient, -⟩ := accepted (.inl hh)
      simp only [Handshake.hostStep, hh]
      refine .before client ?_ (fun hc => ?_) fun _ =>
        ⟨hclient, by show ipcConnectionOk ≠ _; decide⟩
      · exact fun hmem => (List.mem_append.mp hmem).elim stores (by decide)
      · exact absurd (hclient.symm.trans hc) (by decide)
    | done =>
      simp only [Handshake.hostStep, hh]
      exact .before client stores started accepted
  | acked client host state stores =>
    obtain ⟨l, hl, hnot⟩ := stores
    cases host with
    | inl hh =>
      simp only [Handshake.hostStep, hh, state, ne_eq, not_true_eq_false, if_false]
      exact .acked client (.inr rfl) rfl ⟨l, hl, hnot⟩
    | inr hh =>
      simp only [Handshake.hostStep, hh]
      refine .accepted (.inl client) rfl ⟨l, ?_, hnot⟩
      show s.stores ++ [ipcConnectionOk] = _
      rw [hl, List.append_assoc]
      rfl
  | accepted client host stores =>
    simp only [Handshake.hostStep, host]
    exact .accepted client host stores

/-- **A step of the client**, unless it loses a race. -/
lemma Orderly.clientStep (h : s.Orderly) (hrace : ¬s.Race) : s.clientStep.Orderly := by
  cases h with
  | before client stores started accepted =>
    cases client with
    | inl hc =>
      by_cases hstart : s.state = ipcHandshakeStart
      · simp only [Handshake.clientStep, hc, hstart, ne_eq, not_true_eq_false, if_false]
        have hhost : s.host = .check ∨ s.host = .start := by
          cases hh : s.host with
          | check => exact .inl rfl
          | start => exact .inr rfl
          | accept => exact absurd hstart (accepted (.inl hh)).2
          | done => exact absurd hstart (accepted (.inr hh)).2
        exact .before (.inr rfl) stores (fun _ => ⟨rfl, hhost⟩)
          fun hh => absurd hstart (accepted hh).2
      · simp only [Handshake.clientStep, hc, ne_eq, hstart, not_false_eq_true, if_true]
        exact .before (.inl hc) stores started accepted
    | inr hc =>
      have hhost : s.host = .check :=
        (started hc).2.resolve_right fun hh => hrace ⟨hc, hh⟩
      simp only [Handshake.clientStep, hc]
      exact .acked rfl (.inl hhost) rfl ⟨s.stores, rfl, stores⟩
  | acked client host state stores =>
    have hne : s.state ≠ ipcConnectionOk := by
      rw [state]
      decide
    simp only [Handshake.clientStep, client, if_pos hne]
    exact .acked client host state stores
  | accepted client host stores =>
    cases client with
    | inl hc =>
      by_cases hok : s.state = ipcConnectionOk
      · simp only [Handshake.clientStep, hc, hok, ne_eq, not_true_eq_false, if_false]
        exact .accepted (.inr rfl) host stores
      · simp only [Handshake.clientStep, hc, ne_eq, hok, not_false_eq_true, if_true]
        exact .accepted (.inl hc) host stores
    | inr hc =>
      simp only [Handshake.clientStep, hc]
      exact .accepted (.inr hc) host stores

/-- What follows a value that occurs once. -/
lemma eq_of_append_cons {α : Type*} {a : α} {l l' t t' : List α} (hl : a ∉ l)
    (ht : a ∉ t) (h : l ++ a :: t = l' ++ a :: t') : t = t' := by
  rw [List.append_eq_append_iff] at h
  obtain ⟨m, rfl, hm⟩ | ⟨m, rfl, hm⟩ := h
  · cases m with
    | nil => exact (List.cons.inj hm).2
    | cons b m =>
      obtain ⟨-, rfl⟩ := List.cons.inj hm
      exact absurd (by simp) ht
  · cases m with
    | nil => exact (List.cons.inj hm).2.symm
    | cons b m =>
      obtain ⟨rfl, -⟩ := List.cons.inj hm
      exact absurd (by simp) hl

/-- In an orderly state every acknowledgement was answered. -/
lemma Orderly.answered (h : s.Orderly) : s.Answered := by
  intro l v r hstores
  cases h with
  | before client stores started accepted => exact absurd (hstores ▸ by simp) stores
  | acked client host state stores =>
    obtain ⟨l', hl', hnot⟩ := stores
    have heq := eq_of_append_cons hnot (by simp) (hl'.symm.trans hstores)
    exact absurd heq (by simp)
  | accepted client host stores =>
    obtain ⟨l', hl', hnot⟩ := stores
    have heq := eq_of_append_cons hnot (by decide) (hl'.symm.trans hstores)
    exact (List.cons.inj heq).1.symm

/-- A fresh page is orderly, whatever its state word. -/
lemma orderly_fresh (v : ℤ) : (fresh v).Orderly :=
  .before (.inl rfl) (by simp [fresh]) (fun h => absurd h (by simp [fresh])) fun h =>
    absurd h (by simp [fresh])

/-- **The acknowledgement is answered** in every run without a race: whenever the client stores it,
the host is not between its check and its store. -/
theorem ack_answered (v : ℤ) (schedule : List Party)
    (hrace : ∀ l r, schedule = l ++ .client :: r → ¬(run (fresh v) l).Race) :
    (run (fresh v) schedule).Answered := by
  have h : (run (fresh v) schedule).Orderly := by
    refine foldl_invariant_of_steps Orderly (fun s p => p = .client → ¬s.Race)
      (fun s p hs hp => ?_) (orderly_fresh v) fun l p r hl hp => ?_
    · cases p with
      | client => exact hs.clientStep (hp rfl)
      | host => exact hs.hostStep
    · exact hrace l r (hp ▸ hl)
  exact h.answered

/-- The client acknowledges before the host looks again. -/
theorem ack_answered_handover :
    (run (fresh 7) [.host, .host, .client, .client, .host, .host]).stores
        = [ipcHandshakeStart, ipcHandshakeAck, ipcConnectionOk]
      ∧ (run (fresh 7) [.host, .host, .client, .client, .host, .host]).Answered := by
  refine ⟨by decide, ack_answered 7 _ fun l r h => ?_⟩
  have hprefixes : ∀ l ∈ [Party.host, .host, .client, .client, .host, .host].inits,
      ¬(run (fresh 7) l).Race := by decide
  exact hprefixes l ((List.mem_inits _ _).mpr (h ▸ List.prefix_append l _))

/-! ### A lost acknowledgement -/

/-- The client acknowledges between the host's check and its store. -/
theorem ack_race :
    ¬(run (fresh 0) [.host, .client, .client, .host]).Answered := by
  intro h
  exact absurd (h [] ipcHandshakeStart [] (by decide)) (by decide)

/-- Both parties wait for the other. -/
def Hung (s : Handshake) : Prop :=
  s.client = .awaitOk ∧ ((s.host = .start ∧ s.state ≠ ipcConnectionOk)
    ∨ (s.host = .check ∧ s.state = ipcHandshakeStart))

/-- Both go on waiting. -/
lemma Hung.step (h : s.Hung) (p : Party) : (s.step p).Hung := by
  obtain ⟨hc, hhost⟩ := h
  have hne : s.state ≠ ipcConnectionOk := by
    obtain ⟨-, hne⟩ | ⟨-, hstate⟩ := hhost
    · exact hne
    · rw [hstate]
      decide
  cases p with
  | client =>
    simp only [Handshake.step, clientStep, hc, if_pos hne]
    exact ⟨hc, hhost⟩
  | host =>
    obtain ⟨hh, -⟩ | ⟨hh, hstate⟩ := hhost
    · simp only [Handshake.step, hostStep, hh]
      exact ⟨hc, .inr ⟨rfl, rfl⟩⟩
    · have hack : s.state ≠ ipcHandshakeAck := by
        rw [hstate]
        decide
      simp only [Handshake.step, hostStep, hh, if_pos hack]
      exact ⟨hc, .inl ⟨rfl, hne⟩⟩

/-- **A lost race is never made up for**: the acknowledgement is overwritten by the host's next
store, and neither program ever returns. -/
theorem ack_lost (h : s.Race) (schedule : List Party) :
    ((s.step .client).step .host).stores = s.stores ++ [ipcHandshakeAck, ipcHandshakeStart]
      ∧ (run (s.step .client) schedule).client ≠ .done
      ∧ (run (s.step .client) schedule).host ≠ .done := by
  obtain ⟨hc, hh⟩ := h
  have hstep : s.step .client = { s.store ipcHandshakeAck with client := .awaitOk } := by
    simp only [step, clientStep, hc]
  have hung : (run (s.step .client) schedule).Hung := by
    refine foldl_invariant Hung (fun s p hs => hs.step p) ?_ schedule
    rw [hstep]
    exact ⟨rfl, .inl ⟨hh, by show ipcHandshakeAck ≠ _; decide⟩⟩
  refine ⟨?_, ?_, ?_⟩
  · rw [hstep]
    simp only [step, hostStep, store, hh, List.append_assoc]
    rfl
  · rw [hung.1]
    decide
  · obtain ⟨hhost, -⟩ | ⟨hhost, -⟩ := hung.2 <;> rw [hhost] <;> decide

end Handshake

end MicroOS
