/-
  simplefs — the calls the VFS makes, and runs of them.

  * `Op.exec`: one call, run alone with no lock attempt interrupted, with what the
    VFS does to the dentry cache and the inode table around it.
  * `Op.Allowed`: what the VFS guarantees when it makes the call.
  * `Op.does`: what an allowed call does, one constructor of `Op.Does` for each
    outcome; every proof about runs starts from it.
  * `Op.Does.inv`: it keeps the invariant.
-/
import KernelLinux.Lib.Run
import KernelLinux.Simplefs.Mount

namespace Simplefs

open Bytes Prog

/-! ## Calls -/

inductive Op where
  | create (new : Option NewInode) (dir : ℕ) (x : Name) (mode : ℕ)
  | mkdir (new : Option NewInode) (dir : ℕ) (x : Name) (mode : ℕ)
  | unlink (dir : ℕ) (x : Name)
  | write (wc : Except Errno (ℕ × ℕ)) (p : ℕ) (user : List UInt8)
  | read (p pos len room : ℕ)
  | lookup (dir : ℕ) (x : Name) (p : ℕ)
  /-- the VFS drops an inode nobody uses, and its dentry -/
  | evict (p : ℕ)
  /-- a clean unmount, then a mount of the device -/
  | remount

/-- What a call returns. -/
inductive Outcome where
  | done (r : Except Errno Unit)
  | wrote (r : Except Errno ℕ)
  | data (r : Except Errno (List UInt8 × ℕ))
  | looked (r : Lookup)

namespace Fs

def isDir (s : Fs) (p : ℕ) : Bool := (s.inodes p).any fun v => S_ISDIR v.iMode

def isReg (s : Fs) (p : ℕ) : Bool := (s.inodes p).any fun v => S_ISREG v.iMode

/-- Some counted record with a number, in the directory whose inode is at `dir`, has the name. -/
def Has (s : Fs) (dir : ℕ) (x : Name) : Prop :=
  ∃ r < (s.sfs dir).dirChildrenCount, recIno (s.data (s.sfs dir).dataBlockNumber) r ≠ 0 ∧
    recIs (s.data (s.sfs dir).dataBlockNumber) r x = true

/-- The file of the inode at `p` still has its name. -/
def Linked (s : Fs) (p : ℕ) : Prop := ∃ d x, s.dcache d x = some p

def evict (s : Fs) (p : ℕ) : Fs :=
  { s with
    inodes := Function.update s.inodes p none
    dcache := fun d x => if s.dcache d x = some p then none else s.dcache d x }

end Fs

/-- The conditions under which the VFS calls create or mkdir. -/
structure CreateOk (s : Fs) (new : Option NewInode) (dir : ℕ) (x : Name) : Prop where
  isDir : s.isDir dir = true
  short : x.Short
  negative : s.dcache dir x = none
  absent : ¬ s.Has dir x
  fresh : ∀ a, new = some a → s.inodes a.addr = none

namespace Op

/-- What the VFS guarantees when it makes a call.  Names are limited to 24 bytes. -/
def Allowed (s : Fs) : Op → Prop
  | create new dir x mode => CreateOk s new dir x ∧ S_ISREG mode = true
  | mkdir new dir x mode => CreateOk s new dir x ∧ mode &&& S_IFMT = 0
  | unlink dir x => ∃ p, s.dcache dir x = some p ∧ s.isReg p = true
  | write _ p _ => s.isReg p = true
  | read p _ _ _ => s.isReg p = true
  | lookup dir x p => s.isDir dir = true ∧ s.dcache dir x = none ∧ s.inodes p = none
  | evict p => p ≠ rootAddr ∧ ∀ x, s.dcache p x = none
  | remount => True

/-- The call is not a write through a handle kept past the unlink of its file. -/
def InUse (s : Fs) : Op → Prop
  | write _ p _ => s.Linked p
  | _ => True

/-- A write through the handle of an unlinked file, if it is not refused, finds no live file with the
    old number. -/
def Clear (s : Fs) : Op → Prop
  | write (.ok _) p _ => (s.sfs p).inodeNo = 0 →
      ∀ k, s.Live k → (s.store k).inodeNo ≠ (s.sfs p).deadInodeNo
  | _ => True

variable [Target]

def exec (s : Fs) : Op → Outcome × Fs
  | create new dir x mode =>
    let r := (Simplefs.create new dir x mode).exec s
    (.done r.1, r.2)
  | mkdir new dir x mode =>
    let r := (Simplefs.mkdir new dir x mode).exec s
    (.done r.1, r.2)
  | unlink dir x =>
    match s.dcache dir x with
    | some p =>
      let r := (Simplefs.unlink dir p).exec s
      (.done r.1, r.2.dDelete dir x)
    | none => (.done (.ok ()), s)
  | write wc p user =>
    let r := (Simplefs.write wc p user).exec s
    (.wrote r.1, r.2)
  | read p pos len room => (.data ((Simplefs.read p pos len room).exec s).1, s)
  | lookup dir x p =>
    let r := (Simplefs.lookup dir x p).exec s
    (.looked r.1, r.2)
  | evict p => (.done (.ok ()), s.evict p)
  | remount =>
    match fillSuper s.toImage with
    | .ok s' => (.done (.ok ()), s')
    | .error e => (.done (.error e), s)

end Op

/-! ## What a call does -/

/-- The outcomes of a call, and the transitions they come with. -/
inductive Op.Does [Target] (s : Fs) : Op → Outcome → Fs → Prop
  | createFail {new dir x mode e} : e = .enospc ∨ e = .enomem ∧ new = none →
      Does s (.create new dir x mode) (.done (.error e)) s
  | create {a dir x mode d k r z s'} : Created s s' a dir d k r x z → z.mode = mode →
      Does s (.create (some a) dir x mode) (.done (.ok ())) s'
  | mkdirFail {new dir x mode e} : e = .enospc ∨ e = .enomem ∧ new = none →
      Does s (.mkdir new dir x mode) (.done (.error e)) s
  | mkdir {a dir x mode d k r z s'} : Created s s' a dir d k r x z → z.mode = S_IFDIR ||| mode →
      Does s (.mkdir (some a) dir x mode) (.done (.ok ())) s'
  | unlink {dir x p d k r s'} : Unlinked s s' dir p d k r x →
      Does s (.unlink dir x) (.done (.ok ())) s'
  | writeFail {e p user} : Does s (.write (.error e) p user) (.wrote (.error e)) s
  | write {pos len p user k s'} : Wrote s s' p k pos (copyFromUser user len)
        (if user.length < len then (s.store k).size else pos + len) →
      Does s (.write (.ok (pos, len)) p user)
        (.wrote (if user.length < len then .error .efault else .ok len)) s'
  | writeStale {pos len p user k out s'} : WroteStale s s' p k pos (copyFromUser user len)
        (if user.length < len then (s.sfs p).size else pos + len) →
      Does s (.write (.ok (pos, len)) p user) out s'
  | read {p pos len room} :
      Does s (.read p pos len room) (.data ((Simplefs.read p pos len room).exec s).1) s
  | absent {dir x p d} : s.At dir d → (∀ r k, s.Entry d r k → recIs (s.block d) r x = false) →
      Does s (.lookup dir x p) (.looked .negative) s
  | lookup {dir x p d k r v s'} : Looked s s' dir p d k r x v →
      Does s (.lookup dir x p) (.looked (.bound v)) s'
  | evict {p} : p ≠ rootAddr → (∀ x, s.dcache p x = none) →
      Does s (.evict p) (.done (.ok ())) (s.evict p)
  | remount {s'} : Mounted s.toImage s' → Does s .remount (.done (.ok ())) s'

section
variable [Target] {s : Fs} (H : FsInv s)
include H

theorem FsInv.at_dir {p : ℕ} (h : s.isDir p = true) :
    ∃ d, s.At p d ∧ S_ISDIR (s.store d).mode = true := by
  obtain ⟨v, hv, hd⟩ := (Option.any_eq_true _ _).1 h
  obtain ⟨d, hb | hs⟩ := H.inode p v hv
  · exact ⟨d, ⟨v, hv, hb⟩, by rw [← hb.isDir]; exact hd⟩
  · rw [not_dir_of_reg hs.isReg] at hd
    simp at hd

theorem FsInv.at_reg {p : ℕ} (h : s.isReg p = true) :
    ∃ v k, s.inodes p = some v ∧
      (Bound s.toImage v k ∧ S_ISREG (s.store k).mode = true ∨ Stale s.toImage v k) := by
  obtain ⟨v, hv, hr⟩ := (Option.any_eq_true _ _).1 h
  obtain ⟨k, hb | hs⟩ := H.inode p v hv
  · exact ⟨v, k, hv, Or.inl ⟨hb, by rw [← hb.isReg]; exact hr⟩⟩
  · exact ⟨v, k, hv, Or.inr hs⟩

theorem CreateOk.may {new : Option NewInode} {dir : ℕ} {x : Name} (C : CreateOk s new dir x) :
    ∃ d, s.At dir d ∧ ∀ a, new = some a → MayCreate s dir d a x := by
  obtain ⟨d, hd, hdir⟩ := H.at_dir C.isDir
  refine ⟨d, hd, fun a ha => ⟨hd, hdir, C.short, fun r k he => ?_, C.negative, C.fresh a ha⟩⟩
  by_contra hx
  refine C.absent ⟨r, ?_, ?_, ?_⟩ <;> rw [hd.sfs]
  · exact he.counted
  · exact he.ino_ne
  · exact Bool.eq_true_of_not_eq_false hx

/-- **What an allowed call does.** -/
theorem Op.does {op : Op} (h : op.Allowed s) (hc : op.Clear s) :
    op.Does s (op.exec s).1 (op.exec s).2 := by
  cases op with
  | create new dir x mode =>
    obtain ⟨C, hreg⟩ := h
    obtain ⟨d, hd, M⟩ := C.may H
    rcases H.createFsObject_cases M hd (Or.inr hreg) with ⟨e, he, hr⟩ | ⟨a, k, r, z, s', rfl, he, hm, hC⟩
    · simp only [Op.exec, Simplefs.create, he]
      exact .createFail hr
    · simp only [Op.exec, Simplefs.create, he]
      exact .create hC hm
  | mkdir new dir x mode =>
    obtain ⟨C, hmode⟩ := h
    obtain ⟨d, hd, M⟩ := C.may H
    rcases H.createFsObject_cases M hd (Or.inl (isDir_mkdir hmode)) with
      ⟨e, he, hr⟩ | ⟨a, k, r, z, s', rfl, he, hm, hC⟩
    · simp only [Op.exec, Simplefs.mkdir, he]
      exact .mkdirFail hr
    · simp only [Op.exec, Simplefs.mkdir, he]
      exact .mkdir hC hm
  | unlink dir x =>
    obtain ⟨p, hp, hr⟩ := h
    obtain ⟨d, k, r, s', he, hU⟩ := H.unlink_spec hp fun v hv => by
      rw [Fs.isReg, hv] at hr
      exact hr
    simp only [Op.exec, hp, he]
    exact .unlink hU
  | write wc p user =>
    obtain ⟨v, k, hv, hk⟩ := H.at_reg h
    obtain e | ⟨pos, len⟩ := wc
    · exact .writeFail
    rcases hk with ⟨hb, hreg⟩ | hs
    · obtain ⟨s', he, hW⟩ := H.write_spec ⟨v, hv, hb⟩ hreg pos len user
      simp only [Op.exec, he]
      exact .write hW
    · obtain ⟨z, hz, h0, hzd, -⟩ := hs.priv
      have hsfs : s.sfs p = z := Fs.sfs_eq hv hz
      have hdead : ¬ s.Live k := fun hl => by
        refine hc (by rw [hsfs, h0]) k hl ?_
        rw [hsfs, hzd, hl.number]
      exact .writeStale (H.write_stale hv hs hdead pos len user)
  | read p pos len room => exact .read
  | lookup dir x p =>
    obtain ⟨hdir, hx, hp⟩ := h
    obtain ⟨d, hd, hm⟩ := H.at_dir hdir
    rcases H.lookup_cases hd hm hx hp with ⟨he, hn⟩ | ⟨k, r, v, s', he, hL⟩
    · simp only [Op.exec, he]
      exact .absent hd hn
    · simp only [Op.exec, he]
      exact .lookup hL
  | evict p => exact .evict h.1 h.2
  | remount =>
    obtain ⟨s', hs', hM⟩ := mount_spec H.toStoreInv
    simp only [Op.exec, hs']
    exact .remount hM

omit H [Target] in
/-- An evicted inode leaves the others as they are. -/
theorem Fs.evict_at {p q k : ℕ} : (s.evict p).At q k ↔ s.At q k ∧ q ≠ p := by
  by_cases hq : q = p
  · subst hq
    simp [Fs.At, Fs.evict]
  · simp [Fs.At, Fs.evict, hq, Function.update_of_ne]

theorem FsInv.evict {p : ℕ} (hp : p ≠ rootAddr) (hx : ∀ x, s.dcache p x = none) :
    FsInv (s.evict p) where
  toStoreInv := H.toStoreInv
  root_at := Fs.evict_at.2 ⟨H.root_at, hp.symm⟩
  inode q v hv := by
    by_cases hq : q = p
    · subst hq
      simp [Fs.evict] at hv
    · simp only [Fs.evict, Function.update_of_ne hq] at hv
      exact H.inode q v hv
  at_inj q q' k h h' := H.at_inj q q' k (Fs.evict_at.1 h).1 (Fs.evict_at.1 h').1
  dentry d x q h := by
    have h' : s.dcache d x = some q ∧ q ≠ p := by
      simp only [Fs.evict] at h
      split_ifs at h with hd
      exact ⟨h, fun hq => hd (hq ▸ h)⟩
    obtain ⟨e, r, k, he, hk, hr⟩ := H.dentry d x q h'.1
    have hdp : d ≠ p := by
      rintro rfl
      rw [hx] at h'
      simp at h'
    exact ⟨e, r, k, Fs.evict_at.2 ⟨he, hdp⟩, Fs.evict_at.2 ⟨hk, h'.2⟩, hr⟩
  hashed q k hq hroot := by
    obtain ⟨hq', hqp⟩ := Fs.evict_at.1 hq
    obtain ⟨d, x, h⟩ := H.hashed q k hq' hroot
    refine ⟨d, x, ?_⟩
    simp only [Fs.evict, h]
    rw [if_neg]
    simpa using hqp

/-- **Every allowed call keeps the invariant.** -/
theorem Op.Does.inv {op : Op} {out : Outcome} {s' : Fs} (h : op.Does s out s') : FsInv s' := by
  cases h with
  | createFail _ | mkdirFail _ | writeFail | read | absent _ _ => exact H
  | create C _ | mkdir C _ => exact C.inv H
  | unlink U => exact U.inv H
  | write W => exact W.inv H
  | writeStale W => exact W.inv H
  | lookup L => exact L.inv H
  | evict hp hx => exact H.evict hp hx
  | remount M => exact M.inv H.toStoreInv

/-- A file that has its name is live. -/
theorem FsInv.linked {p : ℕ} (h : s.Linked p) : ∃ k, s.At p k := by
  obtain ⟨d, x, hd⟩ := h
  obtain ⟨-, -, k, -, hk, -⟩ := H.dentry d x p hd
  exact ⟨k, hk⟩

theorem Op.InUse.clear {op : Op} (h : op.InUse s) : op.Clear s := by
  cases op with
  | write wc p user =>
    obtain e | w := wc
    · trivial
    obtain ⟨k, hk⟩ := H.linked h
    intro h0
    rw [hk.sfs] at h0
    exact absurd h0 hk.live.2
  | create | mkdir | unlink | read | lookup | evict | remount => trivial

end

/-! ## The calls that change directories -/

/-- create, mkdir, and unlink of the file whose inode is at `p`, with what the VFS does after
    it. -/
inductive Change where
  | create (new : Option NewInode) (dir : ℕ) (x : Name) (mode : ℕ)
  | mkdir (new : Option NewInode) (dir : ℕ) (x : Name) (mode : ℕ)
  | unlink (dir : ℕ) (x : Name) (p : ℕ)

namespace Change

def toOp : Change → Op
  | create new dir x mode => .create new dir x mode
  | mkdir new dir x mode => .mkdir new dir x mode
  | unlink dir x _ => .unlink dir x

/-- The file a call unlinks is the one with the name. -/
def Names (s : Fs) : Change → Prop
  | unlink dir x p => s.dcache dir x = some p
  | _ => True

/-- What the VFS guarantees when it makes the call. -/
structure Allowed (s : Fs) (c : Change) : Prop where
  op : c.toOp.Allowed s
  names : c.Names s

variable [Target]

def prog : Change → FsProg (Except Errno Unit)
  | create new dir x mode => Simplefs.create new dir x mode
  | mkdir new dir x mode => Simplefs.mkdir new dir x mode
  | unlink dir x p => do
    let r ← Simplefs.unlink dir p
    modify fun s => s.dDelete dir x
    pure r

theorem prog_exec {s : Fs} {c : Change} (h : c.Names s) :
    c.toOp.exec s = (.done (c.prog.exec s).1, (c.prog.exec s).2) := by
  cases c with
  | create | mkdir => rfl
  | unlink dir x p =>
    have hp : s.dcache dir x = some p := h
    simp only [prog, toOp, Op.exec, hp, Prog.exec_bind, Prog.exec_modify, pure_def, exec_ret]

variable {s s' : Fs} {c : Change} {r : Except Errno Unit}

theorem Allowed.does (H : FsInv s) (h : c.Allowed s) (he : c.prog.exec s = (r, s')) :
    c.toOp.Does s (.done r) s' := by
  have hc : c.toOp.Clear s := by cases c <;> trivial
  have := Op.does H h.op hc
  rwa [prog_exec h.names, he] at this

theorem Allowed.inv (H : FsInv s) (h : c.Allowed s) (he : c.prog.exec s = (r, s')) : FsInv s' :=
  (h.does H he).inv H

end Change

end Simplefs
