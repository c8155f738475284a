/-
  simplefs — create, mkdir and unlink at the same time.

  The VFS serializes the calls on one parent directory (`Change.Starts`); all else
  is up to the mutexes.  `protocol` is the instance of `Lib/Interleave`: a call owns
  the inodes it uses, their slots and the block of the parent (`Guar`, `Rely`), and
  the superblock and the dead slots while it holds
  `simplefs_directory_children_update_lock`.
-/
import KernelLinux.Lib.Interleave
import KernelLinux.Simplefs.Reach

namespace Simplefs

open Bytes Prog

/-! ## Calls -/

namespace Change

/-- The address of the parent's inode. -/
def dir : Change → ℕ
  | create _ dir _ _ | mkdir _ dir _ _ | unlink dir _ _ => dir

/-- The inode a call makes. -/
def new : Change → Option NewInode
  | create new _ _ _ | mkdir new _ _ _ => new
  | unlink _ _ _ => none

/-- The address of the inode a call makes or unlinks. -/
def obj : Change → Option ℕ
  | unlink _ _ p => some p
  | c => c.new.map NewInode.addr

def Uses (c : Change) (p : ℕ) : Prop := p = c.dir ∨ c.obj = some p

/-- The calls use different inodes. -/
def Compat (c d : Change) : Prop := ∀ p, c.Uses p → ¬ d.Uses p

/-- What is true while a call runs. -/
def Busy (s : Fs) : Change → Prop
  | create new dir _ _ | mkdir new dir _ _ =>
    s.isDir dir = true ∧ ∀ a, new = some a → s.inodes a.addr = none
  | unlink dir x p => s.isDir dir = true ∧ s.isReg p = true ∧ s.dcache dir x = some p

/-- The VFS may begin the call while the calls `W` are running. -/
structure Starts (c : Change) (s : Fs) (W : Set Change) : Prop where
  allowed : c.Allowed s
  /-- calls on one parent directory are serialized -/
  parent : ∀ d ∈ W, d.dir ≠ c.dir
  /-- `new_inode` returns an inode no other call has -/
  fresh : ∀ a, c.new = some a → ∀ d ∈ W, d.obj ≠ some a.addr

theorem uses_dir (c : Change) : c.Uses c.dir := Or.inl rfl

theorem Compat.symm {c d : Change} (h : Compat c d) : Compat d c := fun p hd hc => h p hc hd

theorem Compat.dir_ne {c d : Change} (h : Compat c d) : c.dir ≠ d.dir := fun he =>
  h c.dir c.uses_dir (Or.inl he)

theorem Busy.isDir {s : Fs} {c : Change} (h : c.Busy s) : s.isDir c.dir = true := by
  cases c <;> exact h.1

theorem obj_eq {c : Change} {a : NewInode} (h : c.new = some a) : c.obj = some a.addr := by
  cases c with
  | create new | mkdir new => exact congrArg (Option.map NewInode.addr) h
  | unlink => exact absurd h (by simp [new])

theorem Busy.fresh {s : Fs} {c : Change} (h : c.Busy s) {a : NewInode} (ha : c.new = some a) :
    s.inodes a.addr = none := by
  cases c with
  | create new | mkdir new => exact h.2 a ha
  | unlink => exact absurd ha (by simp [new])

/-- The inode a call makes or unlinks is no directory yet. -/
theorem Busy.obj {s : Fs} {c : Change} (h : c.Busy s) {p : ℕ} (hp : c.obj = some p) :
    s.isDir p = false := by
  cases c with
  | create new | mkdir new =>
    obtain ⟨a, ha, rfl⟩ := Option.map_eq_some_iff.1 hp
    simp [Fs.isDir, h.2 a ha]
  | unlink dir x q =>
    obtain rfl := Option.some.inj hp
    obtain ⟨v, hv, hr⟩ := (Option.any_eq_true _ _).1 h.2.1
    simp [Fs.isDir, hv, not_dir_of_reg hr]

end Change

/-! ## The two states -/

section
variable [Target]

/-- What relates the state `x.1` and the state `x.2` of the serial run. -/
structure Coupled (x : Fs × Fs) : Prop where
  inv : FsInv x.2
  count_le : x.1.sb.inodesCount ≤ x.2.sb.inodesCount
  number : ∀ j < x.1.sb.inodesCount, (x.1.store j).inodeNo = (x.2.store j).inodeNo ∨
    (x.1.store j).inodeNo = 0
  counted : ∀ p j, x.2.At p j → x.1.inodes p ≠ none → j < x.1.sb.inodesCount
  dentry : ∀ d y p, x.1.dcache d y = some p → x.1.isDir d = true ∧ x.1.inodes p ≠ none
  dentry_inj : ∀ d y d' y' p, x.1.dcache d y = some p → x.1.dcache d' y' = some p → d = d'

/-- The two states differ only in what the calls use. -/
structure Synced (W : Set Change) (x : Fs × Fs) : Prop where
  coupled : Coupled x
  inode : ∀ p, (∀ c ∈ W, ¬ c.Uses p) → x.1.inodes p = x.2.inodes p
  row : ∀ p, (∀ c ∈ W, ¬ c.Uses p) → x.1.dcache p = x.2.dcache p
  slot : ∀ j, x.1.store j = x.2.store j ∨ ∃ c ∈ W, ∃ p, c.Uses p ∧ x.2.At p j
  data : ∀ b, (∀ c ∈ W, ∀ j, x.2.At c.dir j → (x.2.store j).dataBlockNumber ≠ b) →
    x.1.data b = x.2.data b

/-- What a call relies on while it holds the mutexes `h`. -/
structure Rely (c : Change) (h : Set Mutex) (x y : Fs × Fs) : Prop where
  coupled : Coupled y
  count : x.1.sb.inodesCount ≤ y.1.sb.inodesCount
  inode : ∀ p, c.Uses p → y.1.inodes p = x.1.inodes p ∧ y.2.inodes p = x.2.inodes p
  row : ∀ p, c.Uses p → y.1.dcache p = x.1.dcache p ∧ y.2.dcache p = x.2.dcache p
  at_iff : ∀ p j, c.Uses p → (y.2.At p j ↔ x.2.At p j)
  slot : ∀ p j, c.Uses p → x.2.At p j → y.1.store j = x.1.store j ∧ y.2.store j = x.2.store j
  data : ∀ j, x.2.At c.dir j →
    y.1.data (x.2.store j).dataBlockNumber = x.1.data (x.2.store j).dataBlockNumber ∧
      y.2.data (x.2.store j).dataBlockNumber = x.2.data (x.2.store j).dataBlockNumber
  sb : .childrenUpdate ∈ h → y.1.sb = x.1.sb ∧ y.2.sb = x.2.sb
  sync : .childrenUpdate ∈ h → ∀ j, x.1.store j = x.2.store j → y.1.store j = y.2.store j

/-- What a step of a call does while it holds the mutexes `h`. -/
structure Guar (c : Change) (h : Set Mutex) (x y : Fs × Fs) : Prop where
  coupled : Coupled y
  count : x.1.sb.inodesCount ≤ y.1.sb.inodesCount
  inode : ∀ p, ¬ c.Uses p → y.1.inodes p = x.1.inodes p ∧ y.2.inodes p = x.2.inodes p
  row : ∀ p, ¬ c.Uses p → y.1.dcache p = x.1.dcache p ∧ y.2.dcache p = x.2.dcache p
  at_iff : ∀ p j, ¬ c.Uses p → (y.2.At p j ↔ x.2.At p j)
  slot : ∀ p j, ¬ c.Uses p → x.2.At p j → y.1.store j = x.1.store j ∧ y.2.store j = x.2.store j
  dir : ∀ j, x.2.At c.dir j →
    y.2.At c.dir j ∧ (y.2.store j).dataBlockNumber = (x.2.store j).dataBlockNumber
  data : ∀ b, (∀ j, x.2.At c.dir j → (x.2.store j).dataBlockNumber ≠ b) →
    y.1.data b = x.1.data b ∧ y.2.data b = x.2.data b
  slots : ∀ j, (x.1.store j = x.2.store j ∨ ∃ p, c.Uses p ∧ x.2.At p j) →
    y.1.store j = y.2.store j ∨ ∃ p, c.Uses p ∧ y.2.At p j
  sb : .childrenUpdate ∉ h → y.1.sb = x.1.sb ∧ y.2.sb = x.2.sb
  sync : .childrenUpdate ∉ h → ∀ j, x.1.store j = x.2.store j → y.1.store j = y.2.store j

/-- The states are the same in what `simplefs_directory_children_update_lock` protects. -/
def Free (l : Mutex) (x : Fs × Fs) : Prop :=
  l = .childrenUpdate → x.1.sb = x.2.sb ∧ x.1.store = x.2.store

/-- The call has left, in the state `x.1`, the update `g` of the parent's block, `ρ` of its dentries
    and `w` of the inodes it uses. -/
structure Pending (c : Change) (g : Block → Block) (ρ : (Name → Option ℕ) → Name → Option ℕ)
    (w : ℕ → Option Inode → Option Inode) (x : Fs × Fs) : Prop where
  inode : ∀ p, c.Uses p → x.2.inodes p = w p (x.1.inodes p)
  row_dir : x.2.dcache c.dir = ρ (x.1.dcache c.dir)
  row : ∀ p, c.Uses p → p ≠ c.dir → x.2.dcache p = x.1.dcache p
  slot : ∀ p j, c.Uses p → x.2.At p j → x.1.store j = x.2.store j
  data : ∀ j, x.2.At c.dir j →
    x.2.data (x.2.store j).dataBlockNumber = g (x.1.data (x.2.store j).dataBlockNumber)

/-- The call has left nothing. -/
abbrev Settled (c : Change) : Fs × Fs → Prop := Pending c id id fun _ => id

/-! ## The protocol -/

variable {c d : Change} {h h' : Set Mutex} {W : Set Change} {x y z : Fs × Fs}

theorem Rely.refl (hx : Coupled x) : Rely c h x x :=
  ⟨hx, le_rfl, fun _ _ => ⟨rfl, rfl⟩, fun _ _ => ⟨rfl, rfl⟩, fun _ _ _ => Iff.rfl, fun _ _ _ _ => ⟨rfl, rfl⟩,
    fun _ _ => ⟨rfl, rfl⟩, fun _ => ⟨rfl, rfl⟩, fun _ _ hj => hj⟩

theorem Guar.refl (hx : Coupled x) : Guar c h x x :=
  ⟨hx, le_rfl, fun _ _ => ⟨rfl, rfl⟩, fun _ _ => ⟨rfl, rfl⟩, fun _ _ _ => Iff.rfl, fun _ _ _ _ => ⟨rfl, rfl⟩,
    fun _ hj => ⟨hj, rfl⟩, fun _ _ => ⟨rfl, rfl⟩, fun _ hj => hj, fun _ => ⟨rfl, rfl⟩, fun _ _ hj => hj⟩

theorem Rely.trans (R : Rely c h x y) (S : Rely c h y z) : Rely c h x z where
  coupled := S.coupled
  count := R.count.trans S.count
  inode p hp := ⟨(S.inode p hp).1.trans (R.inode p hp).1, (S.inode p hp).2.trans (R.inode p hp).2⟩
  row p hp := ⟨(S.row p hp).1.trans (R.row p hp).1, (S.row p hp).2.trans (R.row p hp).2⟩
  at_iff p j hp := (S.at_iff p j hp).trans (R.at_iff p j hp)
  slot p j hp hj := by
    have h := R.slot p j hp hj
    have h' := S.slot p j hp ((R.at_iff p j hp).2 hj)
    exact ⟨h'.1.trans h.1, h'.2.trans h.2⟩
  data j hj := by
    have h := R.data j hj
    have h' := S.data j ((R.at_iff _ j c.uses_dir).2 hj)
    rw [(R.slot _ j c.uses_dir hj).2] at h'
    exact ⟨h'.1.trans h.1, h'.2.trans h.2⟩
  sb hl := ⟨(S.sb hl).1.trans (R.sb hl).1, (S.sb hl).2.trans (R.sb hl).2⟩
  sync hl j hj := S.sync hl j (R.sync hl j hj)

/-- What one call does another relies on. -/
theorem Guar.rely (hx : Coupled x) (hcd : c.Compat d) (hh : Disjoint h h') (G : Guar c h x y) :
    Rely d h' x y where
  coupled := G.coupled
  count := G.count
  inode p hp := G.inode p fun hc => hcd p hc hp
  row p hp := G.row p fun hc => hcd p hc hp
  at_iff p j hp := G.at_iff p j fun hc => hcd p hc hp
  slot p j hp := G.slot p j fun hc => hcd p hc hp
  data j hj := by
    refine G.data _ fun i hi he => ?_
    obtain rfl := hx.inv.block_inj i hi.live.1 j hj.live.1 he
    exact hcd.dir_ne (hx.inv.at_inj _ _ _ hi hj)
  sb hl := G.sb fun hc => Set.disjoint_left.1 hh hc hl
  sync hl := G.sync fun hc => Set.disjoint_left.1 hh hc hl

theorem Guar.busy (hcd : c.Compat d) (G : Guar c h x y) (hb : d.Busy x.1) : d.Busy y.1 := by
  have hi : ∀ p, d.Uses p → y.1.inodes p = x.1.inodes p := fun p hp =>
    (G.inode p fun hc => hcd p hc hp).1
  have hd : y.1.isDir d.dir = x.1.isDir d.dir := by rw [Fs.isDir, Fs.isDir, hi _ d.uses_dir]
  cases d with
  | create new dir | mkdir new dir =>
    refine ⟨hd.trans hb.1, fun a ha => ?_⟩
    subst ha
    rw [hi a.addr (Or.inr rfl)]
    exact hb.2 a rfl
  | unlink dir n p =>
    refine ⟨hd.trans hb.1, ?_, ?_⟩
    · rw [Fs.isReg, hi p (Or.inr rfl)]
      exact hb.2.1
    · rw [(G.row dir fun hc => hcd dir hc (Or.inl rfl)).1]
      exact hb.2.2

theorem Guar.free (hl : l ∉ h) (G : Guar c h x y) (F : Free l x) : Free l y := by
  rintro rfl
  obtain ⟨hsb, hstore⟩ := F rfl
  refine ⟨?_, funext fun j => G.sync hl j (by rw [hstore])⟩
  rw [(G.sb hl).1, (G.sb hl).2, hsb]

theorem Guar.synced (hcd : ∀ d ∈ W, c.Compat d) (G : Guar c h x y) (S : Synced (insert c W) x) :
    Synced (insert c W) y where
  coupled := G.coupled
  inode p hp := by
    have h := G.inode p (hp c (Set.mem_insert c W))
    rw [h.1, h.2, S.inode p hp]
  row p hp := by
    have h := G.row p (hp c (Set.mem_insert c W))
    rw [h.1, h.2, S.row p hp]
  slot j := by
    have hother : (∃ d ∈ W, ∃ p, d.Uses p ∧ x.2.At p j) →
        ∃ d ∈ insert c W, ∃ p, d.Uses p ∧ y.2.At p j := by
      rintro ⟨d, hd, p, hp, hj⟩
      exact ⟨d, Set.mem_insert_of_mem c hd, p, hp,
        (G.at_iff p j fun hc => hcd d hd p hc hp).2 hj⟩
    have hown : (x.1.store j = x.2.store j ∨ ∃ p, c.Uses p ∧ x.2.At p j) →
        y.1.store j = y.2.store j ∨ ∃ d ∈ insert c W, ∃ p, d.Uses p ∧ y.2.At p j := fun h =>
      (G.slots j h).imp_right fun ⟨p, hp⟩ => ⟨c, Set.mem_insert c W, p, hp⟩
    rcases S.slot j with h | ⟨d, hd, hp⟩
    · exact hown (Or.inl h)
    · rcases Set.mem_insert_iff.1 hd with rfl | hd
      · exact hown (Or.inr hp)
      · exact Or.inr (hother ⟨d, hd, hp⟩)
  data b hb := by
    have hx : ∀ d ∈ insert c W, ∀ j, x.2.At d.dir j → (x.2.store j).dataBlockNumber ≠ b := by
      intro d hd j hj
      rcases Set.mem_insert_iff.1 hd with rfl | hd'
      · rw [← (G.dir j hj).2]
        exact hb _ hd j (G.dir j hj).1
      · have hdir : ¬ c.Uses d.dir := fun hc => hcd d hd' _ hc d.uses_dir
        rw [← (G.slot _ j hdir hj).2]
        exact hb d hd j ((G.at_iff _ j hdir).2 hj)
    have h := G.data b (hx c (Set.mem_insert c W))
    rw [h.1, h.2, S.data b hx]

theorem Synced.begin (S : Synced W x) : Synced (insert c W) x where
  coupled := S.coupled
  inode p hp := S.inode p fun d hd => hp d (Set.mem_insert_of_mem c hd)
  row p hp := S.row p fun d hd => hp d (Set.mem_insert_of_mem c hd)
  slot j := (S.slot j).imp_right fun ⟨d, hd, hp⟩ => ⟨d, Set.mem_insert_of_mem c hd, hp⟩
  data b hb := S.data b fun d hd => hb d (Set.mem_insert_of_mem c hd)

theorem Synced.fin (F : Settled c x) (S : Synced (insert c W) x) : Synced W x where
  coupled := S.coupled
  inode p hp := by
    by_cases hc : c.Uses p
    · exact (F.inode p hc).symm
    · exact S.inode p fun d hd => (Set.mem_insert_iff.1 hd).elim (fun he => he ▸ hc) (hp d)
  row p hp := by
    by_cases hc : c.Uses p
    · by_cases hdir : p = c.dir
      · rw [hdir]
        exact F.row_dir.symm
      · exact (F.row p hc hdir).symm
    · exact S.row p fun d hd => (Set.mem_insert_iff.1 hd).elim (fun he => he ▸ hc) (hp d)
  slot j := by
    rcases S.slot j with h | ⟨d, hd, p, hp, hj⟩
    · exact Or.inl h
    · rcases Set.mem_insert_iff.1 hd with rfl | hd
      · exact Or.inl (F.slot p j hp hj)
      · exact Or.inr ⟨d, hd, p, hp, hj⟩
  data b hb := by
    by_cases hc : ∃ j, x.2.At c.dir j ∧ (x.2.store j).dataBlockNumber = b
    · obtain ⟨j, hj, rfl⟩ := hc
      exact (F.data j hj).symm
    · refine S.data b fun d hd => ?_
      rcases Set.mem_insert_iff.1 hd with rfl | hd
      · exact fun j hj he => hc ⟨j, hj, he⟩
      · exact hb d hd

/-- A call run alone. -/
structure Change.Serial (s : Fs) (l : Change × Except Errno Unit) (s' : Fs) : Prop where
  allowed : l.1.Allowed s
  exec : l.1.prog.exec s = (l.2, s')

/-- How the calls share the state. -/
def protocol : Protocol Fs Mutex (Except Errno Unit) Change where
  serial := Change.Serial
  rely := Rely
  guar := Guar
  compat := Change.Compat
  busy c s := c.Busy s
  free := Free
  inv := Synced
  fin := Settled
  rely_refl S := Rely.refl S.coupled
  rely_trans := Rely.trans
  guar_refl R := Guar.refl R.coupled
  compat_symm := Change.Compat.symm
  guar_rely S hcd hh G := G.rely S.coupled hcd hh
  guar_busy hcd G := G.busy hcd
  guar_free hl G := G.free hl
  guar_inv hcd G := G.synced hcd
  inv_begin := Synced.begin
  inv_fin := Synced.fin

end

end Simplefs
