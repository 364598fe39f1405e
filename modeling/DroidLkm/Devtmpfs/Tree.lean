/-
  devtmpfs — the tree of nodes, and what is done for a request.

  A path lists the names from the node up to the root, so that a directory is the
  tail of what lies in it.  Others can mount the filesystem and change it; what the
  module has made bears a mark.

  * `Inode`, `Tree`, `Env`: what is stored, and what the kernel's own functions
    return for each path, where the tree does not say it;
  * `lookupOneLen`, `vfsMkdir`, `vfsMknod`, `vfsUnlink`, `vfsRmdir`, `notifyChange`:
    those functions, as far as the tree goes;
  * `parent`, `handleCreate`, `prune`, `mynode`, `handleRemove`, `handle`: the
    module's.
-/
import DroidLkm.Errno
import Mathlib.Data.Finmap
import Mathlib.Data.Nat.Notation

namespace DroidLkm.Devtmpfs

abbrev Name := List Char

/-- The name of a node, then those of the directories above it. -/
abbrev Path := List Name

/-- `S_IFMT` and `i_rdev`. -/
inductive Kind where
  | dir
  | blk (rdev : ℕ)
  | chr (rdev : ℕ)
  | other
  deriving DecidableEq

/-- An inode; `mine` says that `i_private` is `&droid_lkm_devtmpfs_thread`. -/
structure Inode where
  mine : Bool
  kind : Kind
  perm : ℕ
  uid : ℕ
  gid : ℕ
  deriving DecidableEq

abbrev Tree := Finmap fun _ : Path => Inode

/-- What the kernel's functions return for a path. -/
structure Env where
  lookup : Path → ℤ
  mkdir : Path → ℤ
  mknod : Path → ℤ
  notifyChange : Path → ℤ
  getattr : Path → ℤ
  unlink : Path → ℤ
  rmdir : Path → ℤ

/-- Nothing fails but what the tree says. -/
def Env.calm : Env := ⟨fun _ => 0, fun _ => 0, fun _ => 0, fun _ => 0, fun _ => 0, fun _ => 0,
  fun _ => 0⟩

/-- `struct device`, with its class and its number. -/
structure Device where
  block : Bool
  devt : ℕ
  deriving DecidableEq

/-- The type of the node of a device. -/
def Device.kind (dev : Device) : Kind := if dev.block then .blk dev.devt else .chr dev.devt

/-- A request: `mode` 0 means delete. -/
inductive Job where
  | create (name : Name) (perm uid gid : ℕ) (dev : Device)
  | remove (name : Name) (dev : Device)
  deriving DecidableEq

/-- The internal mount, and `droid_lkm_devtmpfs_nodes`. -/
structure Fs where
  tree : Tree
  nodes : ℤ

/-- `d_inode`; the root is there, and not marked. -/
def Tree.isDir (t : Tree) (p : Path) : Bool :=
  p = [] || (t.lookup p).any (·.kind = .dir)

/-- Something lies in the directory. -/
def Tree.hasChild (t : Tree) (p : Path) : Bool := t.keys.filter (fun q => q.tail = p ∧ q ≠ []) ≠ ∅

/-! ## The kernel's functions -/

/-- `lookup_one_len`: `.` and `..` are refused, and what is no directory cannot be
    searched. -/
def lookupOneLen (t : Tree) (e : Env) (name : Name) (base : Path) : Except ℤ (Option Inode) :=
  if name = ['.'] ∨ name = ['.', '.'] then .error (-EACCES)
  else if e.lookup (name :: base) ≠ 0 then .error (e.lookup (name :: base))
  else if !t.isDir base then .error (-EACCES)
  else .ok (t.lookup (name :: base))

/-- `vfs_mkdir`, and the mark. -/
def vfsMkdir (t : Tree) (e : Env) (p : Path) : Tree × ℤ :=
  if e.mkdir p ≠ 0 then (t, e.mkdir p) else (t.insert p ⟨true, .dir, 0o755, 0, 0⟩, 0)

/-- `vfs_mknod`, for root. -/
def vfsMknod (t : Tree) (e : Env) (p : Path) (kind : Kind) (perm : ℕ) : Tree × ℤ :=
  if (t.lookup p).isSome then (t, -EEXIST)
  else if e.mknod p ≠ 0 then (t, e.mknod p)
  else (t.insert p ⟨false, kind, perm, 0, 0⟩, 0)

/-- The inode at a path changes. -/
def Tree.modify (t : Tree) (p : Path) (f : Inode → Inode) : Tree :=
  match t.lookup p with
  | none => t
  | some i => t.insert p (f i)

/-- `notify_change` of the permissions and the owner; what it returns is not looked at. -/
def notifyChange (t : Tree) (e : Env) (p : Path) (f : Inode → Inode) : Tree :=
  if e.notifyChange p ≠ 0 then t else t.modify p f

/-- `vfs_unlink` of a node that is there. -/
def vfsUnlink (t : Tree) (e : Env) (p : Path) : Tree × ℤ :=
  if e.unlink p ≠ 0 then (t, e.unlink p) else (t.erase p, 0)

/-- `vfs_rmdir`. -/
def vfsRmdir (t : Tree) (e : Env) (p : Path) : Tree × ℤ :=
  if e.rmdir p ≠ 0 then (t, e.rmdir p)
  else if !t.isDir p then (t, -ENOTDIR)
  else if t.hasChild p then (t, -ENOTEMPTY)
  else (t.erase p, 0)

/-! ## The functions of the module -/

/-- `droid_lkm_devtmpfs_parent`, from a directory on, for the components of a name that
    are left: the directories on the way are made, and the last component is left to
    the caller. -/
def parentFrom (t : Tree) (e : Env) (parent : Path) : List Name → Tree × Except ℤ (Path × Name)
  | [] => (t, .error (-EINVAL))
  | s :: rest =>
    if s = [] then (t, .error (-EINVAL))
    else if rest = [] then (t, .ok (parent, s))
    else match lookupOneLen t e s parent with
      | .error err => (t, .error err)
      | .ok (some _) => parentFrom t e (s :: parent) rest
      | .ok none =>
        match vfsMkdir t e (s :: parent) with
        | (t, err) => if err ≠ 0 then (t, .error err) else parentFrom t e (s :: parent) rest

def parent (t : Tree) (e : Env) (name : Name) : Tree × Except ℤ (Path × Name) :=
  parentFrom t e [] (name.splitOn '/')

/-- `droid_lkm_devtmpfs_handle_create`. -/
def handleCreate (fs : Fs) (e : Env) (name : Name) (perm uid gid : ℕ) (dev : Device) : Fs × ℤ :=
  match parent fs.tree e name with
  | (t, .error err) => ({ fs with tree := t }, err)
  | (t, .ok (dir, leaf)) =>
    match lookupOneLen t e leaf dir with
    | .error err => ({ fs with tree := t }, err)
    | .ok _ =>
      match vfsMknod t e (leaf :: dir) dev.kind perm with
      | (t, err) =>
        if err ≠ 0 then ({ fs with tree := t }, err)
        else
          let t := notifyChange t e (leaf :: dir) fun i =>
            { i with perm := perm, uid := uid, gid := gid }
          ({ tree := t.modify (leaf :: dir) fun i => { i with mine := true }
             nodes := fs.nodes + 1 }, 0)

/-- `droid_lkm_devtmpfs_prune`: up to the root, or to what is not ours or cannot be
    removed. -/
def prune (t : Tree) (e : Env) : Path → Tree
  | [] => t
  | s :: up =>
    match t.lookup (s :: up) with
    | none => t
    | some i =>
      if !i.mine then t
      else match vfsRmdir t e (s :: up) with
        | (t, err) => if err ≠ 0 then t else prune t e up

/-- `droid_lkm_devtmpfs_mynode`. -/
def mynode (dev : Device) (i : Inode) : Bool := i.mine && i.kind = dev.kind

/-- `droid_lkm_devtmpfs_handle_remove`. -/
def handleRemove (fs : Fs) (e : Env) (name : Name) (dev : Device) : Fs × ℤ :=
  match parent fs.tree e name with
  | (t, .error err) => ({ fs with tree := t }, err)
  | (t, .ok (dir, leaf)) =>
    match lookupOneLen t e leaf dir with
    | .error err => ({ fs with tree := t }, err)
    | .ok none => ({ fs with tree := t }, -ENOENT)
    | .ok (some i) =>
      if e.getattr (leaf :: dir) ≠ 0 then ({ fs with tree := t }, e.getattr (leaf :: dir))
      else if !mynode dev i then ({ fs with tree := t }, 0)
      else
        let t := notifyChange t e (leaf :: dir) fun i =>
          { i with perm := i.perm / 0o1000 * 0o1000, uid := 0, gid := 0 }
        match vfsUnlink t e (leaf :: dir) with
        | (t, err) =>
          if err = 0 ∨ err = -ENOENT then
            ({ tree := if '/' ∈ name then prune t e dir else t, nodes := fs.nodes - 1 }, err)
          else ({ fs with tree := t }, err)

/-- `droid_lkm_devtmpfs_handle`. -/
def handle (fs : Fs) : Job × Env → Fs × ℤ
  | (.create name perm uid gid dev, e) => handleCreate fs e name perm uid gid dev
  | (.remove name dev, e) => handleRemove fs e name dev

end DroidLkm.Devtmpfs
