import MicroOS.Lib.Records
import MicroOS.Lib.Slots
import MicroOS.Net.SocketBuffer

/-!
The ids of the socket manager of `net/socket_manager.c`, with its table in memory.

* `SocketManager`: the globals, with the kernel and the memory that the table and the sockets are
  in;
* `ConnectRun`: runs of `socket_connect`, parted where `udp_connect` and `tcp_connect` run, and of
  `socket_disconnect`, with what was connected;
* `sockets_mapped`: the ids are a map in every run in which `vmm_alloc` finds the pages it is asked
  for and only connected sockets are disconnected, with receive buffers of their own;
* `socket_null`: in a full memory a socket has no slot.

`udp_connect`, `tcp_connect`, `udp_socket_disconnect`, `tcp_socket_disconnect` and the deliveries
are among what the rest of the kernel does.
-/

namespace MicroOS

open ByteMem ByteImage Checked Run Records

/-- The types of sockets. -/
inductive SocketType where
  | udp
  | tcp
  deriving DecidableEq

/-- `socket_type_e`. -/
def SocketType.value : SocketType → ℕ
  | udp => 0
  | tcp => 1

/-- The offset of `data` in `udp_socket_t` and `tcp_socket_t`; `recv` follows it. -/
def SocketType.dataOffset : SocketType → ℕ
  | udp => 20
  | tcp => 32

/-- `socket_manager_t`, with the kernel and the memory. -/
structure SocketManager where
  kernel : Kernel
  bytes : Mem
  sockets : ℕ
  numSockets : ℕ
  currSocket : ℕ

namespace SocketManager

/-- `sizeof(socket_t)`. -/
def socketSize : ℕ := 20

/-- `socket->socket_id`. -/
def socketId (bytes : Mem) (socket : ℕ) : ℕ := readWord bytes (wrap32 (socket + 8))

/-- `socket->num_bytes_received` and `socket->received_data`. -/
def received (bytes : Mem) (socket : ℕ) : ReceiveBuffer :=
  ⟨readWord bytes (wrap32 (socket + 12)), readWord bytes (wrap32 (socket + 16))⟩

/-- After `init_socket_manager`. -/
def initial (kernel : Kernel) (bytes : Mem) : SocketManager := ⟨kernel, bytes, 0, 0, 5⟩

/-- The address of `sockets[i]`. -/
def slot (m : SocketManager) (i : ℕ) : ℕ := wrap32 (m.sockets + 4 * i)

/-- The table. -/
def table (m : SocketManager) : List ℕ :=
  (List.range m.numSockets).map fun i => readWord m.bytes (m.slot i)

/-- `socket_manager_alloc`: the id, which is the last one that was allocated. -/
def alloc (m : SocketManager) : SocketManager := { m with currSocket := wrap32 (m.currSocket + 1) }

/-- `socket_manager_register`. -/
def register (m : SocketManager) (socket : ℕ) : Except Halt SocketManager :=
  if 0 ∈ m.table then
    .ok { m with bytes := writeWord m.bytes (m.slot (m.table.idxOf 0)) socket }
  else do
    let (kernel, bytes, sockets) ←
      resizeArray m.kernel m.bytes 4 m.numSockets (m.numSockets + 1) m.sockets
    let m := { m with kernel, bytes, sockets }
    return { m with
      bytes := writeWord m.bytes (m.slot m.numSockets) socket
      numSockets := m.numSockets + 1 }

/-- A slot that the loops of `socket_manager_free` and `socket_manager_find` stop at. -/
def Matches (m : SocketManager) (id socket : ℕ) : Prop := socket ≠ 0 ∧ socketId m.bytes socket = id

instance (m : SocketManager) (id socket : ℕ) : Decidable (m.Matches id socket) :=
  inferInstanceAs (Decidable (_ ∧ _))

/-- `socket_manager_free`. -/
def free (m : SocketManager) (id : ℕ) : SocketManager :=
  let i := m.table.findIdx fun socket => m.Matches id socket
  if i < m.table.length then { m with bytes := writeWord m.bytes (m.slot i) 0 } else m

/-- `socket_manager_find`. -/
def find (m : SocketManager) (id : ℕ) : ℕ :=
  (m.table.find? fun socket => m.Matches id socket).getD 0

/-- `socket_connect` up to the call of `udp_connect` or `tcp_connect`: the socket. -/
def connect (m : SocketManager) (type : SocketType) : Except Halt (SocketManager × ℕ) := do
  let (kernel, socket) ← vmmAlloc m.kernel (toPages socketSize)
  let cleared := storeBytes m.bytes socket (List.replicate socketSize 0)
  let m := { m with kernel, bytes := cleared }.alloc
  let bytes := writeWord m.bytes (wrap32 (socket + 8)) m.currSocket
  return ({ m with bytes := writeWord bytes (wrap32 (socket + 4)) type.value }, socket)

/-- The rest of `socket_connect`, with what `udp_connect` or `tcp_connect` returned and the address
of the callback. -/
def connected (m : SocketManager) (type : SocketType) (socket inner recv : ℕ) :
    Except Halt SocketManager :=
  let bytes := writeWord m.bytes socket inner
  let bytes := writeWord bytes (wrap32 (inner + type.dataOffset)) socket
  let bytes := writeWord bytes (wrap32 (inner + type.dataOffset + 4)) recv
  { m with bytes }.register socket

/-- `socket_disconnect`, behind the call of `udp_socket_disconnect` or `tcp_socket_disconnect`. -/
def disconnect (m : SocketManager) (socket : ℕ) : Except Halt SocketManager := do
  let m := m.free (socketId m.bytes socket)
  let b := received m.bytes socket
  let kernel ← vmmFree m.kernel b.receivedData (toPages b.numBytesReceived)
  let kernel ← vmmFree kernel socket (toPages socketSize)
  return { m with kernel }

end SocketManager

/-! ### Runs -/

/-- What has become of an id. -/
inductive IdState where
  | unused
  | connecting (socket : ℕ)
  | connected (socket : ℕ)
  | disconnected
  deriving DecidableEq

/-- The socket of an id. -/
def IdState.socket : IdState → Option ℕ
  | connecting socket | connected socket => some socket
  | unused | disconnected => none

/-- The manager, the ids that were given, the last one first, and what has become of them. -/
structure ConnectRun where
  manager : SocketManager
  ids : List ℕ
  state : ℕ → IdState

/-- The steps of the two calls, or what the rest of the kernel does. -/
inductive ConnectEvent where
  | connect (type : SocketType)
  | connected (type : SocketType) (id socket inner recv : ℕ)
  | disconnect (socket : ℕ)
  | other (kernel : Kernel) (bytes : Mem)

namespace ConnectRun

/-- A frame of the table or of a socket. -/
def Frame (r : ConnectRun) (f : ℕ) : Prop :=
  BufferFrame r.manager.sockets (4 * r.manager.numSockets) f ∨
    ∃ id socket, (r.state id).socket = some socket ∧ f = socket / 0x1000

/-- The receive buffer of a socket is in pages that neither the table nor a socket is in. -/
def OwnBuffer (lo : ℕ) (r : ConnectRun) (socket : ℕ) : Prop :=
  (SocketManager.received r.manager.bytes socket).Held lo r.manager.kernel ∧
    ∀ f, (SocketManager.received r.manager.bytes socket).Frame f → ¬r.Frame f

/-- An event can happen: there are fewer than `2 ^ 31 - 5` calls of `socket_connect`, a call goes on
that has begun, with a `udp_socket_t` or `tcp_socket_t` that is null or a page elsewhere, and the
rest of the kernel keeps its invariant, the table and the ids of the sockets. -/
def Allowed (lo : ℕ) (r : ConnectRun) : ConnectEvent → Prop
  | .connect _ => r.ids.length + 1 < 2 ^ 31 - 5
  | .connected _ id socket inner _ =>
    r.state id = .connecting socket ∧ inner % 0x1000 = 0 ∧ inner < 2 ^ 32 ∧
      (inner ≠ 0 → ¬r.Frame (inner / 0x1000))
  | .disconnect socket => socket < 2 ^ 32
  | .other kernel bytes =>
    KernelInv lo kernel ∧ kernel.pmm.Used 0 ∧ (∀ f, r.Frame f → kernel.pmm.Used f) ∧
      (∀ x, BufferFrame r.manager.sockets (4 * r.manager.numSockets) (x / 0x1000) →
        bytes x = r.manager.bytes x) ∧
      ∀ id socket, (r.state id).socket = some socket →
        SocketManager.socketId bytes socket = SocketManager.socketId r.manager.bytes socket

/-- What an event does. -/
def step (r : ConnectRun) : ConnectEvent → Except Halt ConnectRun
  | .connect type => do
      let (m, socket) ← r.manager.connect type
      return ⟨m, m.currSocket :: r.ids,
        Function.update r.state m.currSocket (.connecting socket)⟩
  | .connected type id socket inner recv => do
      return { r with
        manager := ← r.manager.connected type socket inner recv
        state := Function.update r.state id (.connected socket) }
  | .disconnect socket => do
      return { r with
        manager := ← r.manager.disconnect socket
        state := fun id => if r.state id = .connected socket then .disconnected else r.state id }
  | .other kernel bytes => .ok { r with manager := { r.manager with kernel, bytes } }

/-- The pages that are asked for are there, and a socket that is disconnected is connected and has a
receive buffer of its own. -/
def Sound (lo : ℕ) (r : ConnectRun) : ConnectEvent → Prop
  | .connect _ => ∃ f, r.manager.kernel.pmm.FreeRun f 1
  | .connected .. => 0 ∉ r.manager.table → HasRoom r.manager.kernel (4 * r.manager.numSockets)
      (4 * (r.manager.numSockets + 1)) r.manager.sockets
  | .disconnect socket => (∃ id, r.state id = .connected socket) ∧ r.OwnBuffer lo socket
  | .other .. => True

/-- A step of a run by an event that meets a condition. -/
def StepOf (lo : ℕ) (C : ConnectRun → ConnectEvent → Prop) (r r' : ConnectRun) : Prop :=
  ∃ e, C r e ∧ r.Allowed lo e ∧ r.step e = .ok r'

/-- After `init_socket_manager`, in a kernel that keeps its invariant. -/
structure Initial (lo : ℕ) (r : ConnectRun) : Prop where
  inv : KernelInv lo r.manager.kernel
  zero : r.manager.kernel.pmm.Used 0
  manager : r.manager = .initial r.manager.kernel r.manager.bytes
  ids : r.ids = []
  state : ∀ id, r.state id = .unused

/-- **The ids are a map**: no id was given twice, an id finds its socket as long as that is
connected and nothing else, and a connected socket has one slot that is not free. -/
structure Mapped (r : ConnectRun) : Prop where
  nodup : r.ids.Nodup
  given : ∀ id, r.state id ≠ .unused ↔ id ∈ r.ids
  socketId : ∀ id socket, r.state id = .connected socket →
    SocketManager.socketId r.manager.bytes socket = id
  find : ∀ id socket, r.state id = .connected socket → r.manager.find id = socket
  find_other : ∀ id, (∀ socket, r.state id ≠ .connected socket) → r.manager.find id = 0
  slot : ∀ id socket, r.state id = .connected socket →
    (r.manager.table.filter (· ≠ 0)).count socket = 1

end ConnectRun

/-! ### The table in memory -/

namespace SocketManager

variable {lo : ℕ} {m m' : SocketManager} {socket i v x : ℕ}

lemma table_eq (m : SocketManager) :
    m.table = records readWord 4 m.bytes m.sockets m.numSockets := rfl

@[simp] lemma length_table (m : SocketManager) : m.table.length = m.numSockets :=
  length_records ..

/-- The table is not cut by the top of the address space. -/
def Whole (m : SocketManager) : Prop := m.sockets + 4 * m.numSockets < 2 ^ 32

lemma Whole.slot_eq (h : m.Whole) (hi : i < m.numSockets) : m.slot i = m.sockets + 4 * i :=
  wrap32_slot (by norm_num) h.le hi

/-- **The frame rule** of the table. -/
lemma Whole.table_congr (h : m.Whole) (hsockets : m'.sockets = m.sockets)
    (hnum : m'.numSockets = m.numSockets)
    (hbytes : ∀ x, m.sockets ≤ x → x < m.sockets + 4 * m.numSockets → m'.bytes x = m.bytes x) :
    m'.table = m.table := by
  rw [table_eq, table_eq, hsockets, hnum]
  refine records_eq local_readWord (by norm_num) h.le h.le fun x hx => ?_
  exact hbytes _ (Nat.le_add_right _ x) (Nat.add_lt_add_left hx _)

/-- A slot is written. -/
lemma Whole.table_write (h : m.Whole) (hi : i < m.numSockets) (hv : v < 2 ^ 32)
    (hsockets : m'.sockets = m.sockets) (hnum : m'.numSockets = m.numSockets)
    (hbytes : m'.bytes = writeWord m.bytes (m.slot i) v) : m'.table = m.table.set i v := by
  rw [h.slot_eq hi] at hbytes
  have hother : ∀ x, x < m.sockets + 4 * i ∨ m.sockets + 4 * i + 4 ≤ x →
      m'.bytes x = m.bytes x := fun x hx => by
    rw [hbytes, writeWord_of_disjoint _ _ hx]
  have hset := records_set local_readWord (by norm_num) h.le hi hother
  rw [table_eq, table_eq, hsockets, hnum, hset, hbytes, readWord_writeWord, wrap32_of_lt hv]

/-- **What a change of the table leaves alone**: the new table has frames that were its own or free,
and every other frame that was in use still is and keeps its bytes. -/
structure TableChange (lo : ℕ) (m m' : SocketManager) : Prop where
  inv : KernelInv lo m'.kernel
  buffer : Buffer lo m'.kernel m'.sockets (4 * m'.numSockets)
  curr : m'.currSocket = m.currSocket
  fresh : ∀ f, BufferFrame m'.sockets (4 * m'.numSockets) f →
    BufferFrame m.sockets (4 * m.numSockets) f ∨ ¬m.kernel.pmm.Used f
  used : ∀ f, m.kernel.pmm.Used f → ¬BufferFrame m.sockets (4 * m.numSockets) f →
    m'.kernel.pmm.Used f
  kept : ∀ x, m.kernel.pmm.Used (x / 0x1000) →
    ¬BufferFrame m.sockets (4 * m.numSockets) (x / 0x1000) → m'.bytes x = m.bytes x

lemma whole_of_buffer (h : Buffer lo m.kernel m.sockets (4 * m.numSockets)) : m.Whole := h.end_lt

/-- The bytes of a slot lie in the table. -/
lemma bufferFrame_slot (h : Buffer lo m.kernel m.sockets (4 * m.numSockets)) (h1 : m.sockets ≤ x)
    (h2 : x < m.sockets + 4 * m.numSockets) :
    BufferFrame m.sockets (4 * m.numSockets) (x / 0x1000) := by
  have hptr : m.sockets ≠ 0 := fun h0 => by
    have hnum := h.null h0
    omega
  have hframe := bufferFrame_byte hptr h.aligned (show x - m.sockets < 4 * m.numSockets by omega)
  rwa [Nat.add_sub_cancel' h1] at hframe

/-- A slot is written: the rest of the memory is as it was. -/
lemma tableChange_write (hi : KernelInv lo m.kernel)
    (h : Buffer lo m.kernel m.sockets (4 * m.numSockets)) (hlt : i < m.numSockets) :
    TableChange lo m { m with bytes := writeWord m.bytes (m.slot i) v } := by
  have hwhole := whole_of_buffer h
  refine ⟨hi, h, rfl, fun f hf => .inl hf, fun f hf _ => hf, fun x _ hx => ?_⟩
  refine writeWord_of_disjoint _ _ ?_
  rw [hwhole.slot_eq hlt]
  by_contra hin
  exact hx (bufferFrame_slot h (by omega) (by omega))

/-- The table has moved and has one more slot. -/
lemma grown_spec {k : Kernel} {bytes : Mem} {sockets : ℕ}
    (hbuf : Buffer lo m.kernel m.sockets (4 * m.numSockets)) (hsocket : socket < 2 ^ 32)
    (hres : Resized lo m.kernel m.bytes (4 * m.numSockets) m.sockets k bytes
      (4 * (m.numSockets + 1)) sockets)
    (hm : m' = ⟨k, writeWord bytes (wrap32 (sockets + 4 * m.numSockets)) socket, sockets,
      m.numSockets + 1, m.currSocket⟩) :
    TableChange lo m m' ∧ m'.table = m.table ++ [socket] := by
  subst hm
  have hnew := hres.buffer.end_lt
  have hslot : wrap32 (sockets + 4 * m.numSockets) = sockets + 4 * m.numSockets :=
    wrap32_of_lt (by omega)
  rw [hslot]
  refine ⟨⟨hres.inv, hres.buffer, rfl, hres.fresh, hres.used, fun x hx hnot => ?_⟩, ?_⟩
  · refine (writeWord_of_disjoint _ _ ?_).trans (hres.kept x hx)
    by_contra hin
    have hptr : sockets ≠ 0 := fun h0 => by
      have hnum := hres.buffer.null h0
      omega
    have hframe := bufferFrame_byte hptr hres.buffer.aligned
      (show x - sockets < 4 * (m.numSockets + 1) by omega)
    rw [Nat.add_sub_cancel' (by omega)] at hframe
    exact (hres.fresh _ hframe).elim hnot fun hfree => hfree hx
  · -- the old slots have moved, the new one is behind them
    rw [table_eq, table_eq, records_succ (by norm_num) hnew.le, readWord_writeWord,
      wrap32_of_lt hsocket]
    refine congrArg (· ++ [socket]) ?_
    refine records_eq local_readWord (by norm_num) (whole_of_buffer hbuf).le (by omega)
      fun x hx => ?_
    exact (writeWord_of_disjoint _ _ (by omega)).trans (hres.data x hx (by omega))

/-- **`socket_manager_register`** puts a socket into a free slot or behind the table. -/
lemma register_spec (hi : KernelInv lo m.kernel) (hzero : m.kernel.pmm.Used 0)
    (hbuf : Buffer lo m.kernel m.sockets (4 * m.numSockets)) (hsocket : socket < 2 ^ 32)
    (hroom : 0 ∉ m.table → 4 * (m.numSockets + 1) < 2 ^ 31 ∧
      HasRoom m.kernel (4 * m.numSockets) (4 * (m.numSockets + 1)) m.sockets)
    (h : m.register socket = .ok m') :
    TableChange lo m m' ∧ m'.table = Slots.insert 0 m.table socket := by
  rw [register] at h
  rw [Slots.insert]
  split_ifs at h with hfree
  · obtain rfl := Except.ok.inj h
    have hidx : m.table.idxOf 0 < m.numSockets := by
      rw [← length_table]
      exact List.idxOf_lt_length_of_mem hfree
    rw [if_pos hfree]
    exact ⟨tableChange_write hi hbuf hidx,
      (whole_of_buffer hbuf).table_write hidx hsocket rfl rfl rfl⟩
  · rw [if_neg hfree]
    rw [resizeArray_eq (by norm_num), bind_eq_ok] at h
    obtain ⟨⟨k, bytes, sockets⟩, hresize, hret⟩ := h
    obtain ⟨hsmall, hroom⟩ := hroom hfree
    have hres := resizeBytes_resized hi hzero hbuf hsmall hroom hresize
    exact grown_spec hbuf hsocket hres (Except.ok.inj hret).symm

/-- **`socket_manager_free`** makes the first slot with the id free. -/
lemma free_spec (hi : KernelInv lo m.kernel)
    (hbuf : Buffer lo m.kernel m.sockets (4 * m.numSockets)) (id : ℕ) :
    TableChange lo m (m.free id) ∧
      (m.free id).table = Slots.clear 0 (fun socket => decide (m.Matches id socket)) m.table ∧
      (m.free id).kernel = m.kernel ∧ (m.free id).sockets = m.sockets ∧
      (m.free id).numSockets = m.numSockets := by
  rw [free, Slots.clear]
  split_ifs with hlt
  · rw [length_table] at hlt
    exact ⟨tableChange_write hi hbuf hlt,
      (whole_of_buffer hbuf).table_write hlt (by norm_num) rfl rfl rfl, rfl, rfl, rfl⟩
  · refine ⟨⟨hi, hbuf, rfl, fun f hf => .inl hf, fun f hf _ => hf, fun _ _ _ => rfl⟩, ?_, rfl, rfl,
      rfl⟩
    rw [List.set_eq_of_length_le (not_lt.mp hlt)]

/-! ### Sockets in memory -/

/-- A `socket_t`: a page outside the table, with its id. -/
structure Allocated (lo : ℕ) (m : SocketManager) (id socket : ℕ) : Prop where
  ne_zero : socket ≠ 0
  page : Buffer lo m.kernel socket 0
  apart : ¬BufferFrame m.sockets (4 * m.numSockets) (socket / 0x1000)
  id : socketId m.bytes socket = id

variable {id : ℕ}

lemma bufferFrame_page {ptr f : ℕ} (h : ptr ≠ 0) : BufferFrame ptr 0 f ↔ f = ptr / 0x1000 := by
  rw [BufferFrame, pagesOf]
  omega

lemma Allocated.used (h : Allocated lo m id socket) : m.kernel.pmm.Used (socket / 0x1000) :=
  (h.page.frames _ ((bufferFrame_page h.ne_zero).mpr rfl)).1

/-- The whole page is below the top of the address space. -/
lemma Allocated.end_lt (h : Allocated lo m id socket) : socket + 0x1000 < 2 ^ 32 := by
  have hroom := h.page.room
  have hal := h.page.aligned
  rw [pagesOf, frameCount] at hroom
  omega

/-- Its bytes are in its page. -/
lemma Allocated.frame_byte (h : Allocated lo m id socket) (h1 : socket ≤ x)
    (h2 : x < socket + 0x1000) : x / 0x1000 = socket / 0x1000 := by
  have hal := h.page.aligned
  omega

/-- **The frame rule** of a socket. -/
lemma Allocated.congr (h : Allocated lo m id socket)
    (hused : m'.kernel.pmm.Used (socket / 0x1000))
    (hapart : ¬BufferFrame m'.sockets (4 * m'.numSockets) (socket / 0x1000))
    (hid : socketId m'.bytes socket = socketId m.bytes socket) : Allocated lo m' id socket := by
  refine ⟨h.ne_zero, h.page.of_used fun f hf => ?_, hapart, hid.trans h.id⟩
  obtain rfl := (bufferFrame_page h.ne_zero).mp hf
  exact hused

/-- A field of a socket is read. -/
lemma Allocated.readWord_congr (h : Allocated lo m id socket) {bytes : Mem} {a : ℕ}
    (ha : 4 ≤ a) (hlt : a + 4 ≤ socketSize)
    (hbytes : ∀ x, socket + 4 ≤ x → x / 0x1000 = socket / 0x1000 → bytes x = m.bytes x) :
    readWord bytes (wrap32 (socket + a)) = readWord m.bytes (wrap32 (socket + a)) := by
  have hend := h.end_lt
  rw [socketSize] at hlt
  rw [wrap32_of_lt (by omega)]
  refine ByteMem.readWord_congr fun x h1 h2 => hbytes x (by omega) ?_
  exact h.frame_byte (by omega) (by omega)

/-- A socket stays when the table changes. -/
lemma Allocated.of_change (h : Allocated lo m id socket) (hc : TableChange lo m m') :
    Allocated lo m' id socket := by
  refine h.congr (hc.used _ h.used h.apart) (fun hf => ?_)
    (h.readWord_congr (by norm_num) (by decide) fun x _ hx => ?_)
  · exact (hc.fresh _ hf).elim h.apart fun hfree => hfree h.used
  · exact hc.kept x (hx ▸ h.used) (hx ▸ h.apart)

/-- The receive buffer of a socket stays when the table changes. -/
lemma Allocated.received_of_change (h : Allocated lo m id socket) (hc : TableChange lo m m') :
    received m'.bytes socket = received m.bytes socket := by
  have hbytes : ∀ x, socket + 4 ≤ x → x / 0x1000 = socket / 0x1000 → m'.bytes x = m.bytes x :=
    fun x _ hx => hc.kept x (hx ▸ h.used) (hx ▸ h.apart)
  rw [received, received, h.readWord_congr (by norm_num) (by decide) hbytes,
    h.readWord_congr (by norm_num) (by decide) hbytes]

/-- The memory of a new socket. -/
def created (bytes : Mem) (socket id type : ℕ) : Mem :=
  writeWord (writeWord (storeBytes bytes socket (List.replicate socketSize 0)) (socket + 8) id)
    (socket + 4) type

section Created

variable {bytes : Mem} {type : ℕ}

/-- Making a socket writes nothing around it. -/
lemma created_of_disjoint (hend : socket + socketSize < 2 ^ 32)
    (hx : x < socket ∨ socket + socketSize ≤ x) : created bytes socket id type x = bytes x := by
  rw [socketSize] at hx hend
  rw [created, writeWord_of_disjoint _ _ (by omega), writeWord_of_disjoint _ _ (by omega)]
  exact storeBytes_of_disjoint (by rw [List.length_replicate]; exact hend)
    (by rw [List.length_replicate]; exact hx)

lemma readWord_created_id (hid : id < 2 ^ 32) :
    readWord (created bytes socket id type) (socket + 8) = id := by
  rw [created, readWord_writeWord_of_disjoint _ _ (by omega), readWord_writeWord, wrap32_of_lt hid]

end Created

/-- **The first part of `socket_connect`**: a new socket in a free page, with a new id. -/
lemma connect_spec {type : SocketType} (hi : KernelInv lo m.kernel) (hzero : m.kernel.pmm.Used 0)
    (hbuf : Buffer lo m.kernel m.sockets (4 * m.numSockets)) (hcurr : m.currSocket + 1 < 2 ^ 32)
    (hroom : ∃ f, m.kernel.pmm.FreeRun f 1) (h : m.connect type = .ok (m', socket)) :
    KernelInv lo m'.kernel ∧ m'.sockets = m.sockets ∧ m'.numSockets = m.numSockets ∧
      m'.currSocket = m.currSocket + 1 ∧ Allocated lo m' (m.currSocket + 1) socket ∧
      ¬m.kernel.pmm.Used (socket / 0x1000) ∧
      (∀ f, m.kernel.pmm.Used f → m'.kernel.pmm.Used f) ∧
      ∀ x, m.kernel.pmm.Used (x / 0x1000) → m'.bytes x = m.bytes x := by
  rw [connect, bind_eq_ok] at h
  obtain ⟨⟨k, s⟩, halloc, hret⟩ := h
  obtain ⟨rfl, rfl⟩ := Prod.mk.inj (Except.ok.inj hret)
  obtain ⟨hinv, f, hs, hne, hrun, hused, hmono⟩ :=
    vmmAlloc_room hi hzero one_pos (by norm_num) hroom halloc
  have hpage : Buffer lo k s 0 := hs ▸ buffer_of_run hi.vmm.guarded hrun hne hused
  have hframe : s / 0x1000 = f := by rw [hs, Nat.mul_div_cancel f (by norm_num)]
  have hfree : ¬m.kernel.pmm.Used (s / 0x1000) :=
    hframe ▸ (hrun.free f le_rfl (Nat.lt_succ_self f)).1
  have hs0 : s ≠ 0 := by omega
  have hal := hpage.aligned
  have hend : s + 0x1000 < 2 ^ 32 := by
    have hroom := hpage.room
    rw [pagesOf, frameCount] at hroom
    omega
  have hsize : s + socketSize < 2 ^ 32 := by
    rw [socketSize]
    omega
  dsimp only [alloc]
  rw [wrap32_of_lt (show s + 8 < 2 ^ 32 by omega), wrap32_of_lt (show s + 4 < 2 ^ 32 by omega),
    wrap32_of_lt hcurr]
  refine ⟨hinv, rfl, rfl, rfl, ⟨hs0, hpage, fun hf => ?_, ?_⟩, hfree, hmono, fun x hx => ?_⟩
  · exact hfree (hbuf.frames _ hf).1
  · rw [socketId, wrap32_of_lt (by omega)]
    exact readWord_created_id hcurr
  · refine created_of_disjoint hsize ?_
    by_contra hin
    rw [socketSize] at hin
    have hsame : x / 0x1000 = s / 0x1000 := by omega
    exact hfree (hsame ▸ hx)

/-- What the rest of `socket_connect` stores before the socket is registered. -/
def linked (bytes : Mem) (type : SocketType) (socket inner recv : ℕ) : Mem :=
  writeWord (writeWord (writeWord bytes socket inner) (wrap32 (inner + type.dataOffset)) socket)
    (wrap32 (inner + type.dataOffset + 4)) recv

/-- Linking a socket writes only to it and to the page of what is inside. -/
lemma linked_of_disjoint {bytes : Mem} {type : SocketType} {inner recv : ℕ}
    (hal : inner % 0x1000 = 0) (hinner : inner < 2 ^ 32)
    (hsocket : x < socket ∨ socket + 4 ≤ x) (hx : x / 0x1000 ≠ inner / 0x1000) :
    linked bytes type socket inner recv x = bytes x := by
  have hoffset : type.dataOffset ≤ 32 := by cases type <;> decide
  rw [linked, wrap32_of_lt (show inner + type.dataOffset < 2 ^ 32 by omega),
    wrap32_of_lt (show inner + type.dataOffset + 4 < 2 ^ 32 by omega),
    writeWord_of_disjoint _ _ (by omega), writeWord_of_disjoint _ _ (by omega),
    writeWord_of_disjoint _ _ hsocket]

/-- **`socket_disconnect`** makes the slot of the socket free and gives its pages back. -/
lemma disconnect_spec (hi : KernelInv lo m.kernel)
    (hbuf : Buffer lo m.kernel m.sockets (4 * m.numSockets)) (hs : Allocated lo m id socket)
    (hheld : (received m.bytes socket).Held lo m.kernel)
    (hown : ¬(received m.bytes socket).Frame (socket / 0x1000))
    (h : m.disconnect socket = .ok m') :
    KernelInv lo m'.kernel ∧ m'.sockets = m.sockets ∧ m'.numSockets = m.numSockets ∧
      m'.currSocket = m.currSocket ∧
      m'.table = Slots.clear 0 (fun socket => decide (m.Matches id socket)) m.table ∧
      (∀ x, m.kernel.pmm.Used (x / 0x1000) →
        ¬BufferFrame m.sockets (4 * m.numSockets) (x / 0x1000) → m'.bytes x = m.bytes x) ∧
      ∀ f, m.kernel.pmm.Used f → ¬(received m.bytes socket).Frame f → f ≠ socket / 0x1000 →
        m'.kernel.pmm.Used f := by
  obtain ⟨hchange, htable, hkernel, hsockets, hnum⟩ := free_spec hi hbuf id
  rw [disconnect, hs.id, hs.received_of_change hchange, hkernel, bind_eq_ok] at h
  obtain ⟨k₁, hfree₁, h⟩ := h
  rw [bind_eq_ok] at h
  obtain ⟨k₂, hfree₂, hret⟩ := h
  obtain rfl := Except.ok.inj hret
  obtain ⟨hinv₁, hused₁⟩ := hheld.vmmFree hi hfree₁
  have hpage : Buffer lo k₁ socket 0 := hs.page.of_used fun f hf => by
    obtain rfl := (bufferFrame_page hs.ne_zero).mp hf
    exact hused₁ _ hs.used hown
  obtain ⟨hinv₂, hused₂⟩ := vmmFree_buffer hinv₁ hpage hs.ne_zero hfree₂
  refine ⟨hinv₂, hsockets, hnum, hchange.curr, htable, hchange.kept, fun f hf hnot hne => ?_⟩
  exact hused₂ f (hused₁ f hf hnot) fun hframe => hne ((bufferFrame_page hs.ne_zero).mp hframe)

end SocketManager

/-! ### The invariant -/

namespace ConnectRun

open SocketManager

/-- **The table holds the connected sockets.** -/
structure Tabled (lo : ℕ) (r : ConnectRun) : Prop where
  inv : KernelInv lo r.manager.kernel
  zero : r.manager.kernel.pmm.Used 0
  buffer : Buffer lo r.manager.kernel r.manager.sockets (4 * r.manager.numSockets)
  allocated : ∀ id socket, (r.state id).socket = some socket →
    SocketManager.Allocated lo r.manager id socket
  curr : r.manager.currSocket = 5 + r.ids.length
  bound : r.ids.length < 2 ^ 31 - 5
  le_curr : ∀ id ∈ r.ids, id ≤ r.manager.currSocket
  nodup : r.ids.Nodup
  given : ∀ id, r.state id ≠ .unused ↔ id ∈ r.ids
  distinct : Slots.Distinct 0 r.manager.table
  mem_table : ∀ socket, socket ≠ 0 →
    (socket ∈ r.manager.table ↔ ∃ id, r.state id = .connected socket)

variable {lo : ℕ} {r r' : ConnectRun} {m : SocketManager} {id id' socket socket' : ℕ}

lemma Tabled.allocated_connected (h : Tabled lo r) (hs : r.state id = .connected socket) :
    SocketManager.Allocated lo r.manager id socket :=
  h.allocated id socket (by rw [hs]; rfl)

lemma Tabled.id_unique (h : Tabled lo r) (hs : (r.state id).socket = some socket)
    (hs' : (r.state id').socket = some socket) : id = id' :=
  (h.allocated id socket hs).id.symm.trans (h.allocated id' socket hs').id

/-- Two sockets are in two frames. -/
lemma Tabled.frame_unique (h : Tabled lo r) (hs : (r.state id).socket = some socket)
    (hs' : (r.state id').socket = some socket')
    (hframe : socket / 0x1000 = socket' / 0x1000) : id = id' := by
  have hal := (h.allocated id socket hs).page.aligned
  have hal' := (h.allocated id' socket' hs').page.aligned
  obtain rfl : socket = socket' := by omega
  exact h.id_unique hs hs'

/-- Its number finds it, and no other one. -/
lemma Tabled.matches_iff (h : Tabled lo r) (hs : r.state id = .connected socket) :
    ∀ x ∈ r.manager.table, decide (r.manager.Matches id x) = true ↔ x = socket := by
  intro x hx
  rw [decide_eq_true_iff, Matches]
  constructor
  · rintro ⟨hne, hid⟩
    obtain ⟨id', hid'⟩ := (h.mem_table x hne).mp hx
    obtain rfl : id' = id := (h.allocated_connected hid').id.symm.trans hid
    rw [hs] at hid'
    exact (IdState.connected.inj hid').symm
  · rintro rfl
    have halloc := h.allocated_connected hs
    exact ⟨halloc.ne_zero, halloc.id⟩

lemma Tabled.mem_of_connected (h : Tabled lo r) (hs : r.state id = .connected socket) :
    socket ∈ r.manager.table :=
  (h.mem_table socket (h.allocated_connected hs).ne_zero).mpr ⟨id, hs⟩

/-- **The ids are a map** where the table holds the connected sockets. -/
lemma Tabled.mapped (h : Tabled lo r) : r.Mapped := by
  refine ⟨h.nodup, h.given, fun id socket hs => (h.allocated_connected hs).id,
    fun id socket hs => ?_, fun id hnone => ?_, fun id socket hs => ?_⟩
  · rw [find, Slots.find?_eq_some (h.mem_of_connected hs) (h.matches_iff hs), Option.getD_some]
  · have hfind : r.manager.table.find? (fun x => decide (r.manager.Matches id x)) = none := by
      refine List.find?_eq_none.mpr fun x hx hmatch => ?_
      obtain ⟨hne, hid⟩ := of_decide_eq_true hmatch
      obtain ⟨id', hid'⟩ := (h.mem_table x hne).mp hx
      obtain rfl : id' = id := (h.allocated_connected hid').id.symm.trans hid
      exact hnone x hid'
    rw [find, hfind, Option.getD_none]
  · have hne := (h.allocated_connected hs).ne_zero
    rw [List.count_filter (by simpa using hne)]
    exact h.distinct socket (h.mem_of_connected hs) hne

/-- A table without free slots is no longer than there are frames. -/
lemma Tabled.numSockets_le (h : Tabled lo r) (hfull : 0 ∉ r.manager.table) :
    r.manager.numSockets ≤ frameCount := by
  have hconnected : ∀ x ∈ r.manager.table, ∃ id, r.state id = .connected x := fun x hx =>
    (h.mem_table x fun h0 => hfull (h0 ▸ hx)).mp hx
  have hnodup : r.manager.table.Nodup :=
    List.nodup_iff_count_eq_one.mpr fun x hx => h.distinct x hx fun h0 => hfull (h0 ▸ hx)
  have hframes : (r.manager.table.map fun x => x / 0x1000).Nodup := by
    refine hnodup.map_on fun x hx y hy hxy => ?_
    obtain ⟨id, hid⟩ := hconnected x hx
    obtain ⟨id', hid'⟩ := hconnected y hy
    have hal := (h.allocated_connected hid).page.aligned
    have hal' := (h.allocated_connected hid').page.aligned
    omega
  have hsub : (r.manager.table.map fun x => x / 0x1000) ⊆ List.range frameCount := by
    intro f hf
    obtain ⟨x, hx, rfl⟩ := List.mem_map.mp hf
    obtain ⟨id, hid⟩ := hconnected x hx
    have hroom := (h.allocated_connected hid).page.room
    exact List.mem_range.mpr (by omega)
  have hle := (List.subperm_of_subset hframes hsub).length_le
  rwa [List.length_map, length_table, List.length_range] at hle

/-! ### Steps -/

/-- The frames of the table and of the sockets are in use. -/
lemma Tabled.used (h : Tabled lo r) {f : ℕ} (hf : r.Frame f) : r.manager.kernel.pmm.Used f := by
  rcases hf with hf | ⟨id, socket, hs, rfl⟩
  · exact (h.buffer.frames f hf).1
  · exact (h.allocated id socket hs).used

/-- The table and the sockets are behind the null page. -/
lemma Tabled.frame_ne_zero (h : Tabled lo r) {f : ℕ} (hf : r.Frame f) : f ≠ 0 := by
  rcases hf with ⟨hptr, hle, -⟩ | ⟨id, socket, hs, rfl⟩
  · have hal := h.buffer.aligned
    omega
  · have halloc := h.allocated id socket hs
    have hne := halloc.ne_zero
    have hal := halloc.page.aligned
    omega

lemma Tabled.frame_table (h : Tabled lo r) {x : ℕ} (h1 : r.manager.sockets ≤ x)
    (h2 : x < r.manager.sockets + 4 * r.manager.numSockets) : r.Frame (x / 0x1000) :=
  .inl (bufferFrame_slot h.buffer h1 h2)

lemma frame_socket (hs : (r.state id).socket = some socket) : r.Frame (socket / 0x1000) :=
  .inr ⟨id, socket, hs, rfl⟩

/-- The connected sockets after the id of none has changed. -/
lemma exists_connected_update {state : ℕ → IdState} {v : IdState}
    (hid : ∀ s, state id ≠ .connected s) (x : ℕ) :
    (∃ i, Function.update state id v i = .connected x) ↔
      v = .connected x ∨ ∃ i, state i = .connected x := by
  constructor
  · rintro ⟨i, hi⟩
    by_cases hii : i = id
    · subst hii
      rw [Function.update_self] at hi
      exact .inl hi
    · rw [Function.update_of_ne hii] at hi
      exact .inr ⟨i, hi⟩
  · rintro (rfl | ⟨i, hi⟩)
    · exact ⟨id, Function.update_self ..⟩
    · have hii : i ≠ id := by
        rintro rfl
        exact hid x hi
      exact ⟨i, (Function.update_of_ne hii ..).trans hi⟩

/-- The rest of the kernel goes on. -/
lemma Tabled.other (h : Tabled lo r) (kernel : Kernel) (bytes : Mem)
    (hallowed : r.Allowed lo (.other kernel bytes)) :
    Tabled lo { r with manager := { r.manager with kernel, bytes } } := by
  obtain ⟨hinv, hzero, hused, hbytes, hids⟩ := hallowed
  have htable : SocketManager.table { r.manager with kernel, bytes } = r.manager.table :=
    (whole_of_buffer h.buffer).table_congr rfl rfl fun x h1 h2 =>
      hbytes x (bufferFrame_slot h.buffer h1 h2)
  refine ⟨hinv, hzero, h.buffer.of_used fun f hf => hused f (.inl hf), fun id socket hs => ?_,
    h.curr, h.bound, h.le_curr, h.nodup, h.given, ?_, ?_⟩
  · have halloc := h.allocated id socket hs
    exact halloc.congr (hused _ (frame_socket hs)) halloc.apart (hids id socket hs)
  · rw [htable]
    exact h.distinct
  · rw [htable]
    exact h.mem_table

/-- **A call of `socket_connect` begins**: there is a new id, which finds nothing. -/
lemma Tabled.connect {type : SocketType} (h : Tabled lo r)
    (hlt : r.ids.length + 1 < 2 ^ 31 - 5) (hroom : ∃ f, r.manager.kernel.pmm.FreeRun f 1)
    (hstep : r.manager.connect type = .ok (m, socket)) :
    Tabled lo ⟨m, m.currSocket :: r.ids,
      Function.update r.state m.currSocket (.connecting socket)⟩ := by
  have hcurr := h.curr
  obtain ⟨hinv, hsockets, hnum, hnew, halloc, -, hused, hbytes⟩ :=
    connect_spec h.inv h.zero h.buffer (by omega) hroom hstep
  rw [← hnew] at halloc
  -- the counter is past every id that was given
  have hfresh : m.currSocket ∉ r.ids := fun hmem => by
    have hle := h.le_curr _ hmem
    omega
  have hunused : r.state m.currSocket = .unused :=
    not_not.mp fun hne => hfresh ((h.given _).mp hne)
  have htable : m.table = r.manager.table :=
    (whole_of_buffer h.buffer).table_congr hsockets hnum fun x h1 h2 =>
      hbytes x (h.used (h.frame_table h1 h2))
  refine ⟨hinv, hused 0 h.zero, ?_, fun id s hs => ?_, ?_, hlt, fun id hid => ?_,
    List.nodup_cons.mpr ⟨hfresh, h.nodup⟩, fun id => ?_, ?_, fun s hs => ?_⟩
  · dsimp only
    rw [hsockets, hnum]
    exact h.buffer.of_used fun f hf => hused f (h.used (.inl hf))
  · dsimp only at hs ⊢
    by_cases hid : id = m.currSocket
    · subst hid
      rw [Function.update_self] at hs
      obtain rfl := Option.some.inj hs
      exact halloc
    · rw [Function.update_of_ne hid] at hs
      have hold := h.allocated id s hs
      refine hold.congr (hused _ hold.used) (by rw [hsockets, hnum]; exact hold.apart) ?_
      exact hold.readWord_congr (by norm_num) (by decide) fun x _ hx => hbytes x (hx ▸ hold.used)
  · dsimp only
    rw [List.length_cons]
    omega
  · rcases List.mem_cons.mp hid with rfl | hid
    · exact le_rfl
    · have hle := h.le_curr id hid
      dsimp only
      omega
  · dsimp only
    by_cases hid : id = m.currSocket
    · subst hid
      rw [Function.update_self]
      exact ⟨fun _ => List.mem_cons_self, fun _ => nofun⟩
    · rw [Function.update_of_ne hid, h.given, List.mem_cons]
      exact ⟨.inr, fun hmem => hmem.resolve_left hid⟩
  · dsimp only
    rw [htable]
    exact h.distinct
  · dsimp only
    rw [htable, h.mem_table s hs, exists_connected_update (by rw [hunused]; nofun)]
    exact ⟨.inr, fun hconn => hconn.resolve_left nofun⟩

/-- **The socket of an id is registered**: the id finds it. -/
lemma Tabled.register (h : Tabled lo r) (hs : r.state id = .connecting socket)
    (hroom : 0 ∉ r.manager.table → HasRoom r.manager.kernel (4 * r.manager.numSockets)
      (4 * (r.manager.numSockets + 1)) r.manager.sockets)
    (hreg : r.manager.register socket = .ok m) :
    Tabled lo { r with
      manager := m
      state := Function.update r.state id (.connected socket) } := by
  have hsocket : (r.state id).socket = some socket := by
    rw [hs]
    rfl
  have halloc := h.allocated id socket hsocket
  have hend := halloc.end_lt
  obtain ⟨hchange, htable⟩ := register_spec h.inv h.zero h.buffer (by omega) (fun hfull => by
    have hle := h.numSockets_le hfull
    rw [frameCount] at hle
    exact ⟨by omega, hroom hfull⟩) hreg
  -- the socket is not in the table yet, since its id is not connected
  have hnone : ∀ s, r.state id ≠ .connected s := by simp [hs]
  have hnot : socket ∉ r.manager.table := fun hmem => by
    obtain ⟨i, hi⟩ := (h.mem_table socket halloc.ne_zero).mp hmem
    obtain rfl : i = id := h.id_unique (by rw [hi]; rfl) hsocket
    exact hnone socket hi
  refine ⟨hchange.inv, hchange.used 0 h.zero fun hf => h.frame_ne_zero (.inl hf) rfl,
    hchange.buffer, fun i s his => ?_, hchange.curr.trans h.curr, h.bound, fun i hi => ?_,
    h.nodup, fun i => ?_, ?_, fun s hne => ?_⟩
  · dsimp only at his
    by_cases hii : i = id
    · subst hii
      rw [Function.update_self] at his
      obtain rfl := Option.some.inj his
      exact halloc.of_change hchange
    · rw [Function.update_of_ne hii] at his
      exact (h.allocated i s his).of_change hchange
  · exact (h.le_curr i hi).trans_eq hchange.curr.symm
  · dsimp only
    by_cases hii : i = id
    · subst hii
      rw [Function.update_self]
      exact ⟨fun _ => (h.given i).mp (by simp [hs]), fun _ => by simp⟩
    · rw [Function.update_of_ne hii]
      exact h.given i
  · dsimp only
    rw [htable]
    exact h.distinct.insert hnot
  · dsimp only
    rw [htable, Slots.mem_insert_iff hne, h.mem_table s hne, exists_connected_update hnone,
      IdState.connected.injEq, eq_comm]

/-- **`socket_connect` returns**: what it stores for the callbacks is apart from the table. -/
lemma Tabled.connected {type : SocketType} {inner recv : ℕ} (h : Tabled lo r)
    (hallowed : r.Allowed lo (.connected type id socket inner recv))
    (hroom : 0 ∉ r.manager.table → HasRoom r.manager.kernel (4 * r.manager.numSockets)
      (4 * (r.manager.numSockets + 1)) r.manager.sockets)
    (hstep : r.manager.connected type socket inner recv = .ok m) :
    Tabled lo { r with
      manager := m
      state := Function.update r.state id (.connected socket) } := by
  obtain ⟨hs, hal, hlt, hinner⟩ := hallowed
  have hsocket : (r.state id).socket = some socket := by
    rw [hs]
    rfl
  have hpage := (h.allocated id socket hsocket).page.aligned
  have hapart : ∀ {x}, r.Frame (x / 0x1000) → x / 0x1000 ≠ inner / 0x1000 := by
    intro x hx heq
    by_cases hnull : inner = 0
    · rw [hnull] at heq
      exact h.frame_ne_zero hx heq
    · exact hinner hnull (heq ▸ hx)
  have hlinked : ∀ x, BufferFrame r.manager.sockets (4 * r.manager.numSockets) (x / 0x1000) →
      linked r.manager.bytes type socket inner recv x = r.manager.bytes x := by
    refine fun x hx => linked_of_disjoint hal hlt ?_ (hapart (.inl hx))
    by_contra hin
    have hsame : x / 0x1000 = socket / 0x1000 := by omega
    exact (h.allocated id socket hsocket).apart (hsame ▸ hx)
  have hother := h.other r.manager.kernel (linked r.manager.bytes type socket inner recv)
    ⟨h.inv, h.zero, fun f hf => h.used hf, hlinked, fun i s hi => ?_⟩
  · have htable : SocketManager.table { r.manager with
        bytes := linked r.manager.bytes type socket inner recv } = r.manager.table :=
      (whole_of_buffer h.buffer).table_congr rfl rfl fun x h1 h2 =>
        hlinked x (bufferFrame_slot h.buffer h1 h2)
    exact hother.register hs (by dsimp only; rwa [htable]) hstep
  · have hold := h.allocated i s hi
    have hal' := hold.page.aligned
    refine hold.readWord_congr (by norm_num) (by decide) fun x hx hframe => ?_
    exact linked_of_disjoint hal hlt (by omega) (hapart (hframe ▸ frame_socket hi))

/-- **`socket_disconnect` returns**: the id finds nothing any more. -/
lemma Tabled.disconnect (h : Tabled lo r) (hs : r.state id = .connected socket)
    (hown : r.OwnBuffer lo socket) (hstep : r.manager.disconnect socket = .ok m) :
    Tabled lo { r with
      manager := m
      state := fun i => if r.state i = .connected socket then .disconnected else r.state i } := by
  have hsocket : (r.state id).socket = some socket := by
    rw [hs]
    rfl
  have halloc := h.allocated id socket hsocket
  obtain ⟨hheld, hapart⟩ := hown
  -- the call clears the slot of the socket and frees its page
  obtain ⟨hinv, hsockets, hnum, hcurr, htable, hbytes, hused⟩ :=
    disconnect_spec h.inv h.buffer halloc hheld (fun hf => hapart _ hf (frame_socket hsocket)) hstep
  have hmem := h.mem_of_connected hs
  have hmatch := h.matches_iff hs
  refine ⟨hinv, hused 0 h.zero (fun hf => hf.ne_zero hheld rfl)
    (h.frame_ne_zero (frame_socket hsocket)).symm, ?_, fun i s hi => ?_, hcurr.trans h.curr,
    h.bound, fun i hi => ?_, h.nodup, fun i => ?_, ?_, fun s hne => ?_⟩
  · dsimp only
    rw [hsockets, hnum]
    refine h.buffer.of_used fun f hf => hused f (h.used (.inl hf))
      (fun hbuf => hapart f hbuf (.inl hf)) ?_
    rintro rfl
    exact halloc.apart hf
  · dsimp only at hi ⊢
    split_ifs at hi with hconn
    · exact absurd hi nofun
    · have hold := h.allocated i s hi
      have hframe : s / 0x1000 ≠ socket / 0x1000 := fun hframe => by
        obtain rfl := h.frame_unique hi hsocket hframe
        exact hconn hs
      refine hold.congr (hused _ hold.used (fun hbuf => hapart _ hbuf (frame_socket hi)) hframe)
        (by rw [hsockets, hnum]; exact hold.apart) ?_
      exact hold.readWord_congr (by norm_num) (by decide) fun x _ hx =>
        hbytes x (hx ▸ hold.used) (hx ▸ hold.apart)
  · exact (h.le_curr i hi).trans_eq hcurr.symm
  · dsimp only
    split_ifs with hconn
    · exact ⟨fun _ => (h.given i).mp (by rw [hconn]; nofun), fun _ => nofun⟩
    · exact h.given i
  · dsimp only
    rw [htable]
    exact h.distinct.clear hmem hmatch
  · dsimp only
    rw [htable, Slots.mem_clear_iff h.distinct hmem hmatch hne, h.mem_table s hne]
    constructor
    · rintro ⟨⟨i, hi⟩, hother⟩
      have hconn : r.state i ≠ .connected socket := by
        rw [hi]
        exact fun heq => hother (IdState.connected.inj heq)
      exact ⟨i, (if_neg hconn).trans hi⟩
    · rintro ⟨i, hi⟩
      split_ifs at hi with hconn
      refine ⟨⟨i, hi⟩, ?_⟩
      rintro rfl
      exact hconn hi

/-- No socket is in the table at first. -/
lemma Tabled.of_initial (h : Initial lo r) : Tabled lo r := by
  obtain ⟨hinv, hzero, hmanager, hids, hstate⟩ := h
  have hsockets : r.manager.sockets = 0 := by rw [hmanager]; rfl
  have hnum : r.manager.numSockets = 0 := by rw [hmanager]; rfl
  have htable : r.manager.table = [] := List.length_eq_zero_iff.mp (by rw [length_table, hnum])
  refine ⟨hinv, hzero, ?_, fun id socket hs => ?_, ?_, ?_, ?_, ?_, fun id => ?_, ?_,
    fun socket hne => ?_⟩
  · rw [hsockets, hnum]
    exact ⟨fun _ => rfl, rfl, by decide, fun f hf => absurd rfl hf.1⟩
  · rw [hstate] at hs
    exact absurd hs nofun
  · rw [hids, hmanager]
    rfl
  · rw [hids]
    norm_num
  · rw [hids]
    exact fun id hid => absurd hid List.not_mem_nil
  · rw [hids]
    exact List.nodup_nil
  · rw [hids, hstate]
    exact ⟨fun hne => absurd rfl hne, fun hid => absurd hid List.not_mem_nil⟩
  · rw [htable]
    exact Slots.distinct_nil 0
  · rw [htable]
    refine ⟨fun hmem => absurd hmem List.not_mem_nil, fun ⟨id, hid⟩ => ?_⟩
    rw [hstate] at hid
    exact absurd hid nofun

/-- **The step lemma.** -/
lemma Tabled.step {e : ConnectEvent} (h : Tabled lo r) (hsound : r.Sound lo e)
    (hallowed : r.Allowed lo e) (hstep : r.step e = .ok r') : Tabled lo r' := by
  cases e with
  | connect type =>
    rw [ConnectRun.step, bind_eq_ok] at hstep
    obtain ⟨⟨m, socket⟩, hconnect, hret⟩ := hstep
    obtain rfl := Except.ok.inj hret
    exact h.connect hallowed hsound hconnect
  | connected type id socket inner recv =>
    rw [ConnectRun.step, bind_eq_ok] at hstep
    obtain ⟨m, hconnected, hret⟩ := hstep
    obtain rfl := Except.ok.inj hret
    exact h.connected hallowed hsound hconnected
  | disconnect socket =>
    rw [ConnectRun.step, bind_eq_ok] at hstep
    obtain ⟨m, hdisconnect, hret⟩ := hstep
    obtain rfl := Except.ok.inj hret
    obtain ⟨⟨id, hs⟩, hown⟩ := hsound
    exact h.disconnect hs hown hdisconnect
  | other kernel bytes =>
    obtain rfl := Except.ok.inj hstep
    exact h.other kernel bytes hallowed

end ConnectRun

open ConnectRun in
/-- **Socket ids form a map.** In every run in which the calls find the pages they ask for and only
connected sockets are disconnected, with receive buffers of their own, no id is given twice, an id
finds its socket exactly as long as that is connected, and a connected socket has one slot. -/
theorem sockets_mapped {lo : ℕ} {r : ConnectRun}
    (h : Reachable (Initial lo) (StepOf lo (Sound lo)) r) : r.Mapped :=
  (h.invariant (Tabled lo) (fun _ => Tabled.of_initial)
    fun _ _ hr ⟨_, hsound, hallowed, hstep⟩ => hr.step hsound hallowed hstep).mapped

/-! ### A machine -/

/-- The sockets of a kernel, before anything is connected. -/
def started (k : Kernel) : ConnectRun := ⟨.initial k fun _ => 0, [], fun _ => .unused⟩

lemma started_initial {lo : ℕ} {k : Kernel} (hinv : KernelInv lo k) (hzero : k.pmm.Used 0) :
    ConnectRun.Initial lo (started k) := ⟨hinv, hzero, rfl, rfl, fun _ => rfl⟩

/-- The first socket is registered. -/
lemma register_first {m : SocketManager} {k : Kernel} {socket sockets : ℕ}
    (hsockets : m.sockets = 0) (hnum : m.numSockets = 0)
    (hgrow : vmmAlloc m.kernel 1 = .ok (k, sockets)) : ∃ m', m.register socket = .ok m' := by
  have hempty : 0 ∉ m.table := by
    rw [SocketManager.table, hnum]
    exact List.not_mem_nil
  rw [SocketManager.register, if_neg hempty, hsockets, hnum, resizeArray_eq (by norm_num),
    resizeBytes, vmmResize_bytes]
  exact ⟨_, bind_eq_ok.mpr ⟨_, bind_eq_ok.mpr ⟨_, hgrow, rfl⟩, rfl⟩⟩

/-- The first connection, where `udp_connect` returns null. -/
lemma started_connect {k k₁ k₂ : Kernel} {socket sockets : ℕ}
    (halloc : vmmAlloc k 1 = .ok (k₁, socket)) (hgrow : vmmAlloc k₁ 1 = .ok (k₂, sockets)) :
    ∃ r₁ r₂, (started k).step (.connect .udp) = .ok r₁ ∧ r₁.manager.kernel = k₁ ∧
      r₁.manager.sockets = 0 ∧ r₁.manager.numSockets = 0 ∧ r₁.state 6 = .connecting socket ∧
      r₁.step (.connected .udp 6 socket 0 0) = .ok r₂ ∧ r₂.state 6 = .connected socket := by
  have hconnect : ∃ bytes, (started k).manager.connect .udp = .ok (⟨k₁, bytes, 0, 0, 6⟩, socket) :=
    ⟨_, bind_eq_ok.mpr ⟨_, halloc, rfl⟩⟩
  obtain ⟨bytes, hconnect⟩ := hconnect
  have hregister : ∃ m, SocketManager.connected ⟨k₁, bytes, 0, 0, 6⟩ .udp socket 0 0 = .ok m :=
    register_first rfl rfl hgrow
  obtain ⟨m, hregister⟩ := hregister
  exact ⟨_, _, bind_eq_ok.mpr ⟨_, hconnect, rfl⟩, rfl, rfl, rfl, rfl,
    bind_eq_ok.mpr ⟨_, hregister, rfl⟩, rfl⟩

open ConnectRun in
/-- A socket is connected, and its id finds it. -/
theorem sockets_mapped_machine :
    ∃ r socket, Reachable (Initial bootLayout.poolFrame)
      (StepOf bootLayout.poolFrame (Sound bootLayout.poolFrame)) r ∧
      r.state 6 = .connected socket ∧ r.manager.find 6 = socket := by
  obtain ⟨k, hinv, hzero, hready⟩ := machine_kernel
  have hready : Ready bootLayout.poolFrame {0, 1} 0x440 29 (1 + (1 + 61)) k := hready
  obtain ⟨k₁, f, halloc, -, -, hready₁⟩ := hready.vmmAlloc (by norm_num) (by norm_num)
    machine_slots.kernel (by decide)
  obtain ⟨k₂, g, hgrow, -⟩ := hready₁.vmmAlloc (by norm_num) (by norm_num) machine_slots.kernel
    (by decide)
  obtain ⟨i, hrun, -⟩ := hready.run
  obtain ⟨j, hrun₁, -⟩ := hready₁.run
  obtain ⟨r₁, r₂, hstep, hkernel, hsockets, hnum, hs, hstep₁, hs₁⟩ := started_connect halloc hgrow
  have hreach : Reachable (Initial bootLayout.poolFrame)
      (StepOf bootLayout.poolFrame (Sound bootLayout.poolFrame)) r₁ :=
    (Reachable.start (started_initial hinv hzero)).next
      ⟨.connect .udp, ⟨i, hrun.take (by decide)⟩, by norm_num [Allowed, started], hstep⟩
  have hroom : r₁.Sound bootLayout.poolFrame (.connected .udp 6 (f * 0x1000) 0 0) := by
    rintro - - -
    rw [hkernel, hnum]
    exact ⟨j, hrun₁.take (by decide)⟩
  have hreach₁ := hreach.next
    ⟨.connected .udp 6 (f * 0x1000) 0 0, hroom, ⟨hs, rfl, by norm_num, nofun⟩, hstep₁⟩
  exact ⟨r₂, f * 0x1000, hreach₁, hs₁, (sockets_mapped hreach₁).find 6 _ hs₁⟩

/-! ### A full memory -/

open ConnectRun in
/-- **A socket without a slot.** All memory is in use, and a socket is connected: it is the null
pointer, which marks the free slots of the table. -/
theorem socket_null : ¬∀ r,
    Reachable (Initial bootLayout.poolFrame)
      (StepOf bootLayout.poolFrame fun _ _ => True) r → r.Mapped := by
  intro h
  obtain ⟨k, hinv, hzero, hfull, hready⟩ := full_kernel
  obtain ⟨k₁, halloc, hready₁, hfull₁⟩ := vmmAlloc_full hready hfull (by decide)
  obtain ⟨k₂, hgrow, -⟩ := vmmAlloc_full hready₁ hfull₁ (by decide)
  obtain ⟨r₁, r₂, hstep, -, -, -, hs, hstep₁, hs₁⟩ := started_connect halloc hgrow
  have hreach : Reachable (Initial bootLayout.poolFrame)
      (StepOf bootLayout.poolFrame fun _ _ => True) r₂ :=
    ((Reachable.start (started_initial hinv hzero)).next
      ⟨.connect .udp, trivial, by norm_num [Allowed, started], hstep⟩).next
      ⟨.connected .udp 6 0 0 0, trivial, ⟨hs, rfl, by norm_num, nofun⟩, hstep₁⟩
  have hslot := (h _ hreach).slot 6 0 hs₁
  rw [List.count_eq_zero_of_not_mem (by simp)] at hslot
  exact absurd hslot (by decide)

end MicroOS
