/-
  simplefs — what the file system is for: a service on a file tree.

  `Service` is the abstract state: a tree whose files hold byte strings, and the
  path each open inode stands for.  `Service.Step` says, in these terms alone,
  what a call with a given outcome does.  Lookups, reads and remounts do not
  change the tree.
-/
import KernelLinux.Lib.FileTree
import KernelLinux.Simplefs.Reach

namespace Simplefs

open Bytes

structure Service where
  tree : FileTree Name (List UInt8)
  /-- the path of the file or directory of the inode at an address -/
  handle : ℕ → Option (List Name)

/-- `simplefs_read` at `pos` of a file with content `c`: the copy starts at the first byte of the
    file, whatever `pos` is. -/
def readContent (c : List UInt8) (pos len room : ℕ) : Except Errno (List UInt8 × ℕ) :=
  if c.length ≤ pos then .ok ([], pos)
  else if room < min c.length len then .error .efault
  else .ok (c.take len, pos + min c.length len)

/-- The calls on a file tree. -/
inductive Service.Step (a : Service) : Op × Outcome → Service → Prop
  | createFail {new dir x mode e} : e = .enospc ∨ e = .enomem ∧ new = none →
      Step a (.create new dir x mode, .done (.error e)) a
  | create {i : NewInode} {dir x mode p} (hd : a.handle dir = some p)
      (hp : a.tree.node p = some .dir) (hx : a.tree.node (p ++ [x]) = none) :
      Step a (.create (some i) dir x mode, .done (.ok ()))
        ⟨a.tree.add p x (.file []) hp hx, Function.update a.handle i.addr (some (p ++ [x]))⟩
  | mkdirFail {new dir x mode e} : e = .enospc ∨ e = .enomem ∧ new = none →
      Step a (.mkdir new dir x mode, .done (.error e)) a
  | mkdir {i : NewInode} {dir x mode p} (hd : a.handle dir = some p)
      (hp : a.tree.node p = some .dir) (hx : a.tree.node (p ++ [x]) = none) :
      Step a (.mkdir (some i) dir x mode, .done (.ok ()))
        ⟨a.tree.add p x .dir hp hx, Function.update a.handle i.addr (some (p ++ [x]))⟩
  | unlink {dir x p c} (hd : a.handle dir = some p)
      (hx : a.tree.node (p ++ [x]) = some (.file c)) :
      Step a (.unlink dir x, .done (.ok ()))
        ⟨a.tree.remove p x c hx, fun q => if a.handle q = some (p ++ [x]) then none else a.handle q⟩
  | writeFail {e q user} : Step a (.write (.error e) q user, .wrote (.error e)) a
  | write {o q user p c len} (hq : a.handle q = some p) (hp : a.tree.node p = some (.file c))
      (ho : o ≤ c.length) (hlen : len ≤ user.length) :
      Step a (.write (.ok (o, len)) q user, .wrote (.ok len))
        ⟨a.tree.set p c (c.take o ++ user.take len) hp, a.handle⟩
  /-- the user buffer ends early: bytes in the range of the write may change -/
  | writeFault {o q user p c c' len} (hq : a.handle q = some p)
      (hp : a.tree.node p = some (.file c)) (hlen : user.length < len)
      (hlength : c'.length = c.length) (htake : c'.take o = c.take o)
      (hdrop : c'.drop (o + len) = c.drop (o + len)) :
      Step a (.write (.ok (o, len)) q user, .wrote (.error .efault))
        ⟨a.tree.set p c c' hp, a.handle⟩
  | read {q p c pos len room} (hq : a.handle q = some p) (hp : a.tree.node p = some (.file c)) :
      Step a (.read q pos len room, .data (readContent c pos len room)) a
  | absent {dir x q p} (hd : a.handle dir = some p) (hx : a.tree.node (p ++ [x]) = none) :
      Step a (.lookup dir x q, .looked .negative) a
  | lookup {dir x q p n v} (hd : a.handle dir = some p) (hx : a.tree.node (p ++ [x]) = some n)
      (hv : S_ISDIR v.iMode = n.isDir) (hv' : S_ISREG v.iMode = !n.isDir) :
      Step a (.lookup dir x q, .looked (.bound v))
        ⟨a.tree, Function.update a.handle q (some (p ++ [x]))⟩
  | evict {q} : Step a (.evict q, .done (.ok ())) ⟨a.tree, Function.update a.handle q none⟩
  | remount : Step a (.remount, .done (.ok ()))
      ⟨a.tree, Function.update (fun _ => none) rootAddr (some [])⟩

/-- The tree of a fresh file system: the welcome file in the root directory. -/
def Service.init : Service where
  tree := FileTree.empty.add [] welcomeName (.file welcomefileBody) rfl rfl
  handle := Function.update (fun _ => none) rootAddr (some [])

end Simplefs
