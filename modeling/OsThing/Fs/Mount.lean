/-
The mount table of `kern/fs/fs.c`, on the list helper of `kern/lib/llist.c`.

List nodes come from `knew` and are never freed, so a pointer to one is the number of
the node, in the order of allocation.  `l_add_node_end` asks `knew` for as many bytes
as a *pointer* has, which clears the `next` field of the new node and leaves in the
others whatever the memory held.  That is why the store is a function on all numbers:
beyond `count` it shows what the memory holds before it is handed out.

Page 0 is mapped, so reading through the null pointer is no fault; it finds the words
at address 0.  `zeroPage` is what they are when they are read as a `file_node_t`.
-/
import OsThing.Lib.Chain

namespace OsThing.Fs

open Chain

/-! ### Error codes -/

def EACCES : Int := 2
def EEXIST : Int := 28
def EINVAL : Int := 37
def EMFILE : Int := 56
def ENOENT : Int := 68
def ENOTDIR : Int := 85
def ENOTSUP : Int := 88
def EPERM : Int := 94

/-- `file_node_t`: an inode number and the address of a file system. -/
structure FileNode where
  inode : Nat
  fs : Nat
  deriving DecidableEq

/-! ### `llist` -/

/-- `llist_node_t`, with what `data` points to in its place. -/
structure LlistNode (δ : Type) where
  next : Option Nat
  prev : Option Nat
  data : Option δ
  val : Nat

structure LlistStore (δ : Type) where
  node : Nat → LlistNode δ
  count : Nat

namespace LlistStore

variable {δ : Type} (s : LlistStore δ)

def next (p : Nat) : Option Nat := (s.node p).next

def set (p : Nat) (n : LlistNode δ) : LlistStore δ := { s with node := Function.update s.node p n }

/-- `knew( llist_node_t )`: every field is cleared. -/
def knew : Nat × LlistStore δ :=
  (s.count, { s.set s.count ⟨none, none, none, 0⟩ with count := s.count + 1 })

/-- `knew( node )` where `node` is a pointer: only `next` is cleared. -/
def knewPtr : Nat × LlistStore δ :=
  (s.count, { s.set s.count { s.node s.count with next := none } with count := s.count + 1 })

/--
`l_add_node_end`: the new node and the store, or `none` if the list has no end.  It is
the *old* last node that gets the data.
-/
def addNodeEnd (head : Option Nat) (data : Option δ) : Option (Nat × LlistStore δ) :=
  match head with
  | none => some s.knewPtr
  | some head =>
      (advance s.next (fun p => (s.next p).isSome) s.count head).map fun move =>
        let (new, s) := s.knewPtr
        let s := s.set move { s.node move with next := some new }
        let s := s.set new { s.node new with prev := some move }
        (new, s.set move { s.node move with data := data })

end LlistStore

/-! ### The mount table -/

structure MountTable where
  mountList : Option Nat
  store : LlistStore FileNode
  mountIds : Nat

/-- The table at boot, in a memory that holds `garbage`. -/
def MountTable.boot (garbage : Nat → LlistNode FileNode) : MountTable :=
  ⟨none, ⟨garbage, 0⟩, 1⟩

/--
`register_mount_node`: the id and the table.  Ids are counted without a bound, since
every one of them costs two blocks of a 32-bit memory.
-/
def registerMountNode (t : MountTable) (node : FileNode) : Option (Nat × MountTable) :=
  let (head, store) := match t.mountList with
    | none => t.store.knew
    | some head => (head, t.store)
  (store.addNodeEnd (some head) none).map fun (move, store) =>
    let store := store.set move { store.node move with data := some node, val := t.mountIds + 1 }
    (t.mountIds + 1, ⟨some head, store, t.mountIds + 1⟩)

/--
`get_mount_node`: the return value and what `nodebuf` holds afterwards, or `none` if
the list has no end.
-/
def getMountNode (zeroPage : FileNode) (t : MountTable) (id : Nat) (nodebuf : FileNode) :
    Option (Int × FileNode) :=
  (seek t.store.next (fun p => (t.store.node p).val = id) t.store.count t.mountList).map fun
    | some move => (1, (t.store.node move).data.getD zeroPage)
    | none => (-ENOENT, nodebuf)

/-- A sequence of registrations, with the ids they return. -/
def registerAll (t : MountTable) : List FileNode → Option (List Nat × MountTable)
  | [] => some ([], t)
  | n :: rest =>
      (registerMountNode t n).bind fun (id, t) =>
        (registerAll t rest).map fun (ids, t) => (id :: ids, t)

end OsThing.Fs
