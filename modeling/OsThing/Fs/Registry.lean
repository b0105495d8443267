/-
The list of file systems, `register_fs` of `kern/fs/fs.c`.

It is an `llist` (`Fs/Mount.lean`), and what `data` points to is whatever a file system is.  The
last node of the list has no data yet: `l_add_node_end` puts it into the old last node.  The
flags of a registration are not looked at.
-/
import OsThing.Fs.Mount

namespace OsThing.Fs

open Chain

/-- `file_system_list`, and the memory of its nodes. -/
structure Registry (δ : Type) where
  fileSystemList : Option Nat
  store : LlistStore δ

variable {δ : Type}

/-- No file system is registered, in a memory that holds `garbage`. -/
def Registry.boot (garbage : Nat → LlistNode δ) : Registry δ := ⟨none, ⟨garbage, 0⟩⟩

/-- `register_fs`, or `none` if the list has no end. -/
def registerFs (r : Registry δ) (newfs : δ) : Option (Registry δ) :=
  let (head, store) := match r.fileSystemList with
    | none => r.store.knew
    | some head => (head, r.store)
  (store.addNodeEnd (some head) (some newfs)).map fun (_, store) => ⟨some head, store⟩

/-- A sequence of registrations. -/
def registerAllFs (r : Registry δ) : List δ → Option (Registry δ)
  | [] => some r
  | newfs :: rest => (registerFs r newfs).bind fun r => registerAllFs r rest

/-- The loop of `kmain` from the head of the list on: the data that it comes to. -/
def Registry.walk (r : Registry δ) (head : Nat) : Option (List (Option δ)) :=
  (passed r.store.next r.store.count head).map fun nodes =>
    nodes.map fun blarg => (r.store.node blarg).data

end OsThing.Fs
