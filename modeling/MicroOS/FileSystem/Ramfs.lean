import MicroOS.Memory.VmmResize

/-!
The files of `fs/ramfs.c`, over the virtual memory manager.

* `RamfsNode`, `RamfsFile`, `Ramfs`: a file node, an open handle, and both with the kernel and the
  memory that the buffers of the files lie in;
* `Ramfs.read`, `Ramfs.write`, `Ramfs.truncate`: `ramfs_read`, `ramfs_write`, `ramfs_truncate`.

Sizes and offsets are below `2 ^ 31`, where `int` and `size_t` agree.
-/

namespace MicroOS

open ByteMem Checked PageEntry

/-- `ramfs_node_t` of a file. -/
structure RamfsNode where
  fsize : ℕ
  fdata : ℕ

/-- `file_t`: its node, and its `size`. -/
structure RamfsFile where
  node : ℕ
  size : ℕ

/-- The nodes and the open handles by their addresses, the kernel, and the contents of memory. -/
structure Ramfs where
  kernel : Kernel
  bytes : Mem
  nodes : ℕ → RamfsNode
  files : ℕ → RamfsFile

namespace Ramfs

/-- `ramfs_read`, the bytes that are copied to the buffer of the caller. -/
def read (fs : Ramfs) (file size offset : ℕ) : Except Halt (List UInt8) :=
  let node := fs.nodes (fs.files file).node
  if node.fsize ≥ offset + size then
    .ok ((List.range size).map fun i => fs.bytes (wrap32 (node.fdata + offset + i)))
  else .error .abort

/-- `ramfs_write`, the buffer made large enough. -/
def grow (fs : Ramfs) (n newFileSize : ℕ) : Except Halt Ramfs :=
  let node := fs.nodes n
  if newFileSize > node.fsize then do
    let (kernel, bytes, fdata) ← resizeBytes fs.kernel fs.bytes node.fsize newFileSize node.fdata
    return { fs with kernel, bytes, nodes := Function.update fs.nodes n ⟨newFileSize, fdata⟩ }
  else .ok fs

/-- `ramfs_write`. -/
def write (fs : Ramfs) (file : ℕ) (data : List UInt8) (offset : ℕ) : Except Halt Ramfs := do
  let n := (fs.files file).node
  let fs ← fs.grow n (offset + data.length)
  let node := fs.nodes n
  return { fs with
    bytes := storeBytes fs.bytes (wrap32 (node.fdata + offset)) data
    files := Function.update fs.files file ⟨n, node.fsize⟩ }

/-- `ramfs_truncate`. -/
def truncate (fs : Ramfs) (file newSize : ℕ) : Except Halt Ramfs := do
  let n := (fs.files file).node
  let node := fs.nodes n
  let (kernel, bytes, fdata) ← resizeBytes fs.kernel fs.bytes node.fsize newSize node.fdata
  return {
    kernel
    bytes
    nodes := Function.update fs.nodes n ⟨newSize, fdata⟩
    files := Function.update fs.files file ⟨n, newSize⟩ }

end Ramfs

end MicroOS
