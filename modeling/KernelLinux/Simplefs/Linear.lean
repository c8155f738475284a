/-
  simplefs — unlink while other calls run.

  An unlink takes effect when it writes the dead slot; the record and the dentry it
  has left then are in places no other call uses (`lin_unlink`).
-/
import KernelLinux.Simplefs.Concurrent

namespace Simplefs

open Bytes Prog

variable [Target] {c : Change} {h : Set Mutex} {W : Set Change} {x y : Fs × Fs}

/-- What is left of the call's program, with the mutexes `h` held, is linear. -/
abbrev Linear (c : Change) (p : FsProg (Except Errno Unit)) (h : Set Mutex)
    (o : Option (Except Errno Unit)) (x : Fs × Fs) : Prop := protocol.Lin Site.mutex c p h o x

/-- The same inodes are in memory, and of the same kinds. -/
def SameKinds (s s' : Fs) : Prop :=
  ∀ p, (s'.inodes p).map Inode.iMode = (s.inodes p).map Inode.iMode

namespace SameKinds
variable {s s' : Fs} (H : SameKinds s s') (p : ℕ)
include H

omit [Target] in
theorem isDir : s'.isDir p = s.isDir p := by
  have := congrArg (Option.any S_ISDIR) (H p)
  rwa [Option.any_map, Option.any_map] at this

omit [Target] in
theorem isReg : s'.isReg p = s.isReg p := by
  have := congrArg (Option.any S_ISREG) (H p)
  rwa [Option.any_map, Option.any_map] at this

omit [Target] in
theorem none_iff : s'.inodes p = none ↔ s.inodes p = none := by
  rw [← Option.map_eq_none_iff (f := Inode.iMode), H p, Option.map_eq_none_iff]

end SameKinds

/-! ## The beginning of a call -/

theorem Pending.stable {g : Block → Block} {ρ : (Name → Option ℕ) → Name → Option ℕ}
    {w : ℕ → Option Inode → Option Inode} (R : Rely c h x y) (Q : Pending c g ρ w x) :
    Pending c g ρ w y where
  inode p hp := by rw [(R.inode p hp).1, (R.inode p hp).2, Q.inode p hp]
  row_dir := by rw [(R.row _ c.uses_dir).1, (R.row _ c.uses_dir).2, Q.row_dir]
  row p hp hd := by rw [(R.row p hp).1, (R.row p hp).2, Q.row p hp hd]
  slot p j hp hj := by
    have hj' := (R.at_iff p j hp).1 hj
    rw [(R.slot p j hp hj').1, (R.slot p j hp hj').2, Q.slot p j hp hj']
  data j hj := by
    have hj' := (R.at_iff _ j c.uses_dir).1 hj
    rw [(R.slot _ j c.uses_dir hj').2, (R.data j hj').1, (R.data j hj').2, Q.data j hj']

omit [Target] in
theorem CreateOk.congr {u u' : Fs} {new : Option NewInode} {dir : ℕ} {n : Name}
    (hdir : u'.inodes dir = u.inodes dir) (hnew : ∀ a, new = some a → u'.inodes a.addr = u.inodes a.addr)
    (hrow : u'.dcache dir = u.dcache dir)
    (hdata : u'.data (u.sfs dir).dataBlockNumber = u.data (u.sfs dir).dataBlockNumber)
    (C : CreateOk u new dir n) : CreateOk u' new dir n := by
  have hsfs : u'.sfs dir = u.sfs dir := by rw [Fs.sfs, Fs.sfs, hdir]
  refine ⟨?_, C.short, ?_, ?_, fun a ha => (hnew a ha).trans (C.fresh a ha)⟩
  · rw [Fs.isDir, hdir]
    exact C.isDir
  · rw [hrow]
    exact C.negative
  · rw [Fs.Has, hsfs, hdata]
    exact C.absent

omit [Target] in
theorem Change.Allowed.isReg {u : Fs} {dir p : ℕ} {n : Name} (h : (Change.unlink dir n p).Allowed u) :
    u.isReg p = true := by
  obtain ⟨q, hq, hreg⟩ := h.op
  obtain rfl := Option.some.inj (hq.symm.trans h.names)
  exact hreg

omit [Target] in
/-- What the VFS guarantees depends on what the call uses alone. -/
theorem Change.Allowed.congr {u u' : Fs} (hinode : ∀ p, c.Uses p → u'.inodes p = u.inodes p)
    (hrow : u'.dcache c.dir = u.dcache c.dir)
    (hdata : u'.data (u.sfs c.dir).dataBlockNumber = u.data (u.sfs c.dir).dataBlockNumber)
    (h : c.Allowed u) : c.Allowed u' := by
  have hdir := hinode c.dir c.uses_dir
  cases c with
  | create new dir n mode | mkdir new dir n mode =>
    have hnew : ∀ a, new = some a → u'.inodes a.addr = u.inodes a.addr := by
      rintro a rfl
      exact hinode a.addr (Or.inr rfl)
    exact ⟨⟨h.op.1.congr hdir hnew hrow hdata, h.op.2⟩, trivial⟩
  | unlink dir n p =>
    have hn : u.dcache dir n = some p := h.names
    have hn' : u'.dcache dir n = some p := (congrFun hrow n).trans hn
    refine ⟨⟨p, hn', ?_⟩, hn'⟩
    rw [Fs.isReg, hinode p (Or.inr rfl)]
    exact h.isReg

/-- The call has done nothing yet. -/
structure Ready (c : Change) (x : Fs × Fs) : Prop where
  coupled : Coupled x
  settled : Settled c x
  allowed : c.Allowed x.2

theorem Change.Allowed.isDir {u : Fs} (H : FsInv u) (h : c.Allowed u) : u.isDir c.dir = true := by
  cases c with
  | create | mkdir => exact h.op.1.isDir
  | unlink dir n p =>
    obtain ⟨d, r, k, hd, -, he, -⟩ := H.dentry dir n p h.names
    obtain ⟨v, hv, hb⟩ := hd
    refine (Option.any_eq_true _ _).2 ⟨v, hv, ?_⟩
    rw [hb.isDir]
    exact he.dir.2

/-- The parent's inode is that of a directory's slot. -/
theorem Ready.at_dir (Y : Ready c x) : ∃ d, x.2.At c.dir d ∧ S_ISDIR (x.2.store d).mode = true :=
  Y.coupled.inv.at_dir (Y.allowed.isDir Y.coupled.inv)

theorem Ready.sfs (Y : Ready c x) : x.1.sfs c.dir = x.2.sfs c.dir := by
  have h : x.2.inodes c.dir = x.1.inodes c.dir := Y.settled.inode _ c.uses_dir
  rw [Fs.sfs, Fs.sfs, h]

theorem Ready.stable (R : Rely c h x y) (Y : Ready c x) : Ready c y := by
  refine ⟨R.coupled, Y.settled.stable R, Y.allowed.congr (fun p hp => (R.inode p hp).2)
    (R.row _ c.uses_dir).2 ?_⟩
  obtain ⟨d, hd, -⟩ := Y.at_dir
  rw [hd.sfs]
  exact (R.data d hd).2

theorem Change.Starts.busy {s v : Fs} (K : Coupled (s, v)) (H : c.Starts s W) : c.Busy s := by
  have ha := H.allowed
  cases c with
  | create | mkdir => exact ⟨ha.op.1.isDir, ha.op.1.fresh⟩
  | unlink dir n p => exact ⟨(K.dentry dir n p ha.names).1, ha.isReg, ha.names⟩

omit [Target] in
/-- What is true while a call runs depends on the kinds of the inodes and the dentries. -/
theorem Change.Busy.congr {s s' : Fs} (hkind : SameKinds s s') (hrow : s'.dcache = s.dcache)
    (h : c.Busy s) : c.Busy s' := by
  cases c with
  | create new dir | mkdir new dir =>
    exact ⟨(hkind.isDir dir).trans h.1, fun a ha => (hkind.none_iff a.addr).2 (h.2 a ha)⟩
  | unlink dir n p =>
    exact ⟨(hkind.isDir dir).trans h.1, (hkind.isReg p).trans h.2.1, hrow ▸ h.2.2⟩

/-- A call that begins uses other inodes than the ones running. -/
theorem Change.Starts.compat {s v : Fs} (K : Coupled (s, v)) (H : c.Starts s W) {d : Change}
    (hd : d ∈ W) (hb : d.Busy s) : c.Compat d := by
  have hc := H.busy K
  rintro p (rfl | hp) (he | hq)
  · exact H.parent d hd he.symm
  · exact absurd hc.isDir (by simp [hb.obj hq])
  · exact absurd hb.isDir (by simp [← he, hc.obj hp])
  · have hfresh : ∀ a, c.new = some a → c.obj = some a.addr → False := by
      intro a ha ho
      refine H.fresh a ha d hd ?_
      rw [hq, ← hp, ho]
    cases c with
    | create new | mkdir new =>
      obtain ⟨a, rfl, rfl⟩ := Option.map_eq_some_iff.1 hp
      exact hfresh a rfl rfl
    | unlink dir n q =>
      obtain rfl := Option.some.inj hp
      cases d with
      | create new | mkdir new =>
        obtain ⟨a, ha, rfl⟩ := Option.map_eq_some_iff.1 hq
        exact (K.dentry dir n _ hc.2.2).2 (hb.2 a ha)
      | unlink dir' n' q' =>
        obtain rfl := Option.some.inj hq
        exact H.parent _ hd (K.dentry_inj dir' n' dir n q' hb.2.2 hc.2.2)

theorem Change.Starts.ready {s v : Fs} (S : Synced W (s, v)) (H : c.Starts s W)
    (hcompat : ∀ d ∈ W, c.Compat d) : Ready c (s, v) := by
  have hinode : ∀ p, c.Uses p → s.inodes p = v.inodes p := fun p hp =>
    S.inode p fun d hd => hcompat d hd p hp
  have hrow : ∀ p, c.Uses p → s.dcache p = v.dcache p := fun p hp =>
    S.row p fun d hd => hcompat d hd p hp
  have hdata : ∀ j, v.At c.dir j →
      s.data (v.store j).dataBlockNumber = v.data (v.store j).dataBlockNumber := by
    refine fun j hj => S.data _ fun d hd i hi he => ?_
    obtain rfl := S.coupled.inv.block_inj i hi.live.1 j hj.live.1 he
    exact (hcompat d hd).dir_ne (S.coupled.inv.at_inj _ _ _ hj hi)
  have hsettled : Settled c (s, v) := by
    refine ⟨fun p hp => (hinode p hp).symm, (hrow _ c.uses_dir).symm, fun p hp _ => (hrow p hp).symm,
      fun p j hp hj => ?_, fun j hj => (hdata j hj).symm⟩
    refine (S.slot j).resolve_right ?_
    rintro ⟨d, hd, q, hq, hj'⟩
    obtain rfl := S.coupled.inv.at_inj _ _ _ hj hj'
    exact hcompat d hd p hp hq
  refine ⟨S.coupled, hsettled, H.allowed.congr (fun p hp => (hinode p hp).symm)
    (hrow _ c.uses_dir).symm ?_⟩
  have hdir := (H.busy S.coupled).isDir
  rw [Fs.isDir, hinode _ c.uses_dir] at hdir
  obtain ⟨d, hd, -⟩ := S.coupled.inv.at_dir hdir
  rw [Fs.sfs, hinode _ c.uses_dir, ← Fs.sfs, hd.sfs]
  exact (hdata d hd).symm

/-! ## Steps that leave the serial state alone -/

/-- An inode is found by its number, whatever the other calls have done so far. -/
theorem Coupled.search (K : Coupled x) {p k : ℕ} {z : SimplefsInode} (hk : x.2.At p k)
    (hp : x.1.inodes p ≠ none) (hs : (x.1.store k).inodeNo = (x.2.store k).inodeNo)
    (hz : z.number = (x.2.store k).inodeNo) : inodeSearch x.1.toImage z = some k := by
  have hkc := K.counted p k hk hp
  refine inodeSearch_some.2 ⟨hkc.le, by rw [hs, hz], fun l hl hlz => ?_⟩
  rw [hz] at hlz
  rcases K.number l (by omega) with h | h
  · have hle := K.count_le
    have hlive : x.2.Live l := ⟨by omega, by rw [← h, hlz]; exact hk.live.2⟩
    have := K.inv.live_inj hlive hk.live (by rw [← h, hlz])
    omega
  · exact hk.live.2 (hlz.symm.trans h)

section
variable {s : Fs}

/-- The state changes in blocks, in the private parts of inodes, and loses dentries. -/
theorem Coupled.update (K : Coupled y) (hsb : s.sb = y.1.sb) (hstore : s.store = y.1.store)
    (hkind : SameKinds y.1 s)
    (hdcache : ∀ d n p, s.dcache d n = some p → y.1.dcache d n = some p) : Coupled (s, y.2) := by
  refine ⟨K.inv, by rw [hsb]; exact K.count_le, fun j hj => ?_, fun p j hj hp => ?_,
    fun d n p h => ?_, fun d n d' n' p h h' => ?_⟩
  · rw [hstore]
    exact K.number j (by rwa [hsb] at hj)
  · rw [hsb]
    exact K.counted p j hj (mt (hkind.none_iff p).2 hp)
  · have := K.dentry d n p (hdcache d n p h)
    exact ⟨(hkind.isDir d).trans this.1, mt (hkind.none_iff p).1 this.2⟩
  · exact K.dentry_inj d n d' n' p (hdcache _ _ _ h) (hdcache _ _ _ h')

/-- A step that changes what the call uses, and nothing in the serial state. -/
theorem Guar.own (K : Coupled y) (K' : Coupled (s, y.2))
    (hcount : y.1.sb.inodesCount ≤ s.sb.inodesCount)
    (hinode : ∀ p, ¬ c.Uses p → s.inodes p = y.1.inodes p)
    (hrow : ∀ p, ¬ c.Uses p → s.dcache p = y.1.dcache p)
    (hdata : ∀ b, (∀ j, y.2.At c.dir j → (y.2.store j).dataBlockNumber ≠ b) → s.data b = y.1.data b)
    (hsb : .childrenUpdate ∉ h → s.sb = y.1.sb)
    (hslot : ∀ j, s.store j = y.1.store j ∨ .childrenUpdate ∈ h ∧ ∃ p, c.Uses p ∧ y.2.At p j) :
    Guar c h y (s, y.2) where
  coupled := K'
  count := hcount
  inode p hp := ⟨hinode p hp, rfl⟩
  row p hp := ⟨hrow p hp, rfl⟩
  at_iff p j _ := Iff.rfl
  slot p j hp hj := by
    refine ⟨(hslot j).resolve_right ?_, rfl⟩
    rintro ⟨-, q, hq, hj'⟩
    exact hp (K.inv.at_inj _ _ _ hj hj' ▸ hq)
  dir j hj := ⟨hj, rfl⟩
  data b hb := ⟨hdata b hb, rfl⟩
  slots j hj := by
    rcases hslot j with h | ⟨-, h⟩
    · rwa [h]
    · exact Or.inr h
  sb hl := ⟨hsb hl, rfl⟩
  sync hl j hj := by
    have := (hslot j).resolve_right fun h => hl h.1
    rw [this, hj]

end

/-! ## unlink -/

section
variable {dir p blk r m : ℕ} {n : Name} {v₀ : Inode}

/-- The block of the call's parent. -/
def Parent (c : Change) (blk : ℕ) (x : Fs × Fs) : Prop :=
  ∃ d, x.2.At c.dir d ∧ (x.2.store d).dataBlockNumber = blk

theorem Parent.stable (R : Rely c h x y) (Q : Parent c blk x) : Parent c blk y := by
  obtain ⟨d, hd, rfl⟩ := Q
  exact ⟨d, (R.at_iff _ d c.uses_dir).2 hd, by rw [(R.slot _ d c.uses_dir hd).2]⟩

/-- `simplefs_unlink` has found the record `r`, which holds the number `m`. -/
structure Found (dir p : ℕ) (n : Name) (blk r m : ℕ) (x : Fs × Fs) : Prop where
  coupled : Coupled x
  allowed : (Change.unlink dir n p).Allowed x.2
  parent : Parent (.unlink dir n p) blk x
  find : findIno (x.2.data blk) (x.2.sfs dir).dirChildrenCount
    ((x.2.inodes p).map Inode.iIno |>.getD 0) = some r
  number : recIno (x.2.data blk) r = m

theorem Found.stable (R : Rely (.unlink dir n p) h x y) (Q : Found dir p n blk r m x) :
    Found dir p n blk r m y := by
  have hdir := (R.inode dir (Or.inl rfl)).2
  have hsfs : y.2.sfs dir = x.2.sfs dir := by rw [Fs.sfs, Fs.sfs, hdir]
  obtain ⟨d, hd, hblk⟩ := Q.parent
  have hdata := (R.data d hd).2
  rw [hblk] at hdata
  refine ⟨R.coupled, Q.allowed.congr (fun q hq => (R.inode q hq).2) (R.row _ (Or.inl rfl)).2 ?_,
    Q.parent.stable R, ?_, ?_⟩
  · have hd' : x.2.At dir d := hd
    show y.2.data (x.2.sfs dir).dataBlockNumber = x.2.data (x.2.sfs dir).dataBlockNumber
    rw [hd'.sfs, hblk]
    exact hdata
  · rw [hdata, hsfs, (R.inode p (Or.inr rfl)).2]
    exact Q.find
  · rw [hdata]
    exact Q.number

/-- The private inode of the file after `simplefs_unlink` has changed it. -/
def deadInode (m : ℕ) (v : Inode) : Inode :=
  { v with priv := v.priv.map fun z => { z with deadInodeNo := m, inodeNo := 0 } }

/-- The in-memory inode of the file is dead, its slot is not. -/
structure Dying (dir p : ℕ) (n : Name) (blk r m : ℕ) (v₀ : Inode) (x : Fs × Fs) : Prop where
  found : Found dir p n blk r m x
  pending : Pending (.unlink dir n p) id id (fun q i => if q = p then some v₀ else i) x
  file : x.1.inodes p = some (deadInode m v₀)

theorem Dying.stable (R : Rely (.unlink dir n p) h x y) (Q : Dying dir p n blk r m v₀ x) :
    Dying dir p n blk r m v₀ y :=
  ⟨Q.found.stable R, Q.pending.stable R, (R.inode p (Or.inr rfl)).1.trans Q.file⟩

section
variable {s v u : Fs} {d k : ℕ} (K : Coupled (s, v)) (U : Unlinked v u dir p d k r n)
include K U

/-- The slot of the file becomes dead, in both states. -/
theorem Unlinked.guar : Guar (.unlink dir n p) h (s, v) (s.setSlot k (u.store k), u) := by
  have hat : ∀ q j, u.At q j ↔ v.At q j ∧ j ≠ k := fun q j => U.at_iff K.inv
  have hdk : d ≠ k := U.removed.not_dir U.removed.entry.dir
  have hstore : ∀ j, j ≠ k → (s.setSlot k (u.store k)).store j = s.store j ∧ u.store j = v.store j :=
    fun j hj => ⟨Function.update_of_ne hj _ _, U.removed.store_ne hj⟩
  have hstore_k : (s.setSlot k (u.store k)).store k = u.store k := Function.update_self _ _ _
  have hother : ∀ q j, ¬ (Change.unlink dir n p).Uses q → v.At q j → j ≠ k := fun q j hq hj hjk =>
    hq (Or.inr (congrArg some (K.inv.at_inj _ _ _ (hjk ▸ U.at_file) hj)))
  have hsync : ∀ j, s.store j = v.store j → (s.setSlot k (u.store k)).store j = u.store j := by
    intro j hj
    by_cases hjk : j = k
    · rw [hjk, hstore_k]
    · rw [(hstore j hjk).1, (hstore j hjk).2, hj]
  have hcoupled : Coupled (s.setSlot k (u.store k), u) := by
    refine ⟨U.inv K.inv, ?_, fun j hj => ?_, fun q j hj => K.counted q j ((hat q j).1 hj).1, K.dentry,
      K.dentry_inj⟩
    · show s.sb.inodesCount ≤ u.sb.inodesCount
      rw [U.removed.sb]
      exact K.count_le
    · simp only
      by_cases hjk : j = k
      · rw [hjk, hstore_k]
        exact Or.inl rfl
      · rw [(hstore j hjk).1, (hstore j hjk).2]
        exact K.number j hj
  refine ⟨hcoupled, le_rfl, fun q hq => ⟨rfl, U.inodes_ne fun he => hq (Or.inr (congrArg some he.symm))⟩,
    fun q hq => ⟨rfl, ?_⟩, fun q j hq => ⟨fun hj => ((hat q j).1 hj).1, fun hj =>
    (hat q j).2 ⟨hj, hother q j hq hj⟩⟩, fun q j hq hj => hstore j (hother q j hq hj), fun j hj => ?_,
    fun b hb => ⟨rfl, U.removed.data b fun he => hb d U.at_dir he.symm⟩, fun j hj => ?_,
    fun _ => ⟨rfl, U.removed.sb⟩, fun _ => hsync⟩
  · have hqd : q ≠ dir := fun he => hq (Or.inl he)
    simp only [U.dcache, Function.update_of_ne hqd]
  · obtain rfl := K.inv.at_fun U.at_dir hj
    exact ⟨(hat dir d).2 ⟨U.at_dir, hdk⟩, (U.removed.store_all d).2.1⟩
  · rcases hj with hj | ⟨q, hq, hj⟩
    · exact Or.inl (hsync j hj)
    · by_cases hjk : j = k
      · left
        rw [hjk, hstore_k]
      · exact Or.inr ⟨q, hq, (hat q j).2 ⟨hj, hjk⟩⟩

/-- The record of the file and its dentry are left. -/
theorem Unlinked.pending
    (P : Pending (.unlink dir n p) id id (fun q i => if q = p then some v₀ else i) (s, v))
    (hfile : s.inodes p = u.inodes p) : Pending (.unlink dir n p) (fun b => clearRecord b r)
      (fun f => Function.update f n none) (fun _ => id) (s.setSlot k (u.store k), u) := by
  have hat : ∀ q j, u.At q j ↔ v.At q j ∧ j ≠ k := fun q j => U.at_iff K.inv
  refine ⟨fun q hq => ?_, ?_, fun q hq hqd => ?_, fun q j hq hj => ?_, fun j hj => ?_⟩
  · by_cases hqp : q = p
    · rw [hqp]
      exact hfile.symm
    · have := P.inode q hq
      rw [if_neg hqp] at this
      exact (U.inodes_ne hqp).trans this
  · show u.dcache dir = Function.update (s.dcache dir) n none
    have : v.dcache dir = s.dcache dir := P.row_dir
    rw [U.dcache, Function.update_self, this]
  · show u.dcache q = s.dcache q
    have hqd : q ≠ dir := hqd
    have : v.dcache q = s.dcache q := P.row q hq hqd
    rw [U.dcache, Function.update_of_ne hqd, this]
  · obtain ⟨hj, hjk⟩ := (hat q j).1 hj
    have : s.store j = v.store j := P.slot q j hq hj
    show Function.update s.store k (u.store k) j = u.store j
    rw [Function.update_of_ne hjk, this, U.removed.store_ne hjk]
  · obtain rfl := K.inv.at_fun U.at_dir ((hat dir j).1 hj).1
    show u.data (u.store d).dataBlockNumber = clearRecord (s.data (u.store d).dataBlockNumber) r
    have : v.data (v.store d).dataBlockNumber = s.data (v.store d).dataBlockNumber :=
      P.data d U.at_dir
    rw [(U.removed.store_all d).2.1, U.removed.record, ← this]
    rfl

end

/-- **The unlink takes effect**: the slot of the file is dead. -/
theorem Dying.effect (Q : Dying dir p n blk r m v₀ y) :
    (∃ k, inodeSearch y.1.toImage (y.1.sfs p) = some k) ∧
    ∃ v, Change.Serial y.2 (.unlink dir n p, .ok ()) v ∧
      Guar (.unlink dir n p) h y (saveSlot p y.1, v) ∧
      Pending (.unlink dir n p) (fun b => clearRecord b r) (fun f => Function.update f n none)
        (fun _ => id) (saveSlot p y.1, v) ∧
      Parent (.unlink dir n p) blk (saveSlot p y.1, v) := by
  obtain ⟨s, v⟩ := y
  obtain ⟨⟨K, hallowed, ⟨d, hdir, rfl⟩, hfind, rfl⟩, P, hfile⟩ := Q
  simp only at hfind hfile ⊢
  have hdir : v.At dir d := hdir
  have hv₀ : v.inodes p = some v₀ := by
    have := P.inode p (Or.inr rfl)
    rwa [if_pos rfl] at this
  have hp : v.dcache dir n = some p := hallowed.names
  have hreg : v.isReg p = true := hallowed.isReg
  rw [Fs.isReg, hv₀] at hreg
  obtain ⟨d', k, r', v', hexec, U⟩ := K.inv.unlink_spec hp fun w hw => by
    obtain rfl := Option.some.inj (hv₀.symm.trans hw)
    exact hreg
  obtain rfl := K.inv.at_fun hdir U.at_dir
  have hb := U.at_file.bound hv₀
  have hentry := U.removed.entry
  obtain rfl : r' = r := by
    have := K.inv.findIno_entry hentry
    rw [hdir.sfs, hv₀, Option.map_some, Option.getD_some, hb.ino] at hfind
    exact Option.some.inj (this.symm.trans hfind)
  set u := v'.dDelete dir n with hu
  have hsfs : s.sfs p = u.store k := by
    rw [U.removed.store_k, ← hentry.ino]
    exact Fs.sfs_eq hfile (by rw [deadInode, hb.priv, Option.map_some]; rfl)
  have hinode : s.inodes p = u.inodes p := by
    rw [U.inodes, Function.update_self, hfile]
    show _ = Option.map _ (v.inodes p)
    rw [hv₀, Option.map_some, U.removed.store_k, ← hentry.ino, deadInode, hb.priv, Option.map_some]
    rfl
  have hsearch : inodeSearch s.toImage (s.sfs p) = some k := by
    refine K.search U.at_file ?_ (congrArg _ (P.slot p k (Or.inr rfl) U.at_file)) ?_
    · simp only [hfile]
      exact Option.some_ne_none _
    · rw [hsfs, U.removed.store_k]
      exact SimplefsInode.number_dead rfl
  have hsave : saveSlot p s = s.setSlot k (u.store k) := by
    unfold saveSlot
    rw [hsearch, hsfs]
  have hdk : d ≠ k := U.removed.not_dir hentry.dir
  rw [hsave]
  refine ⟨⟨k, hsearch⟩, u, ⟨hallowed, ?_⟩, U.guar K, U.pending K P hinode,
    d, (U.at_iff K.inv).2 ⟨hdir, hdk⟩, (U.removed.store_all d).2.1⟩
  simp only [Change.prog, Prog.exec_bind, hexec, Prog.exec_modify, pure_def, exec_ret]
  rfl

/-- The last step of an unlink: `d_delete`. -/
theorem lin_dDelete (P : Pending (.unlink dir n p) id (fun f => Function.update f n none) (fun _ => id) x) :
    Linear (.unlink dir n p)
      (modify (fun s => s.dDelete dir n) >>= fun _ => ret (.ok ())) ∅ (some (.ok ())) x := by
  refine Protocol.lin_modify fun y R _ => ?_
  have Q := P.stable R
  have K : Coupled y := R.coupled
  have hrow : ∀ q, q ≠ dir → (y.1.dDelete dir n).dcache q = y.1.dcache q := fun q hq =>
    Function.update_of_ne hq _ _
  have hrow_dir : (y.1.dDelete dir n).dcache dir = y.2.dcache dir :=
    (Function.update_self _ _ _).trans Q.row_dir.symm
  have hcoupled : Coupled (y.1.dDelete dir n, y.2) := by
    refine K.update rfl rfl (fun _ => rfl) fun d n' q h => ?_
    by_cases hd : d = dir
    · subst hd
      rw [hrow_dir, show y.2.dcache d = _ from Q.row_dir] at h
      by_cases hn : n' = n
      · rw [hn, Function.update_self] at h
        exact absurd h (by simp)
      · rwa [Function.update_of_ne hn] at h
    · rwa [hrow d hd] at h
  refine ⟨Guar.own K hcoupled le_rfl (fun _ _ => rfl) (fun q hq => hrow q fun he => hq (Or.inl he))
    (fun _ _ => rfl) (fun _ => rfl) fun _ => Or.inl rfl, by simp [Prog.done], rfl, rfl, fun z S => ?_⟩
  have Q' : Settled (.unlink dir n p) (y.1.dDelete dir n, y.2) :=
    ⟨Q.inode, hrow_dir.symm, fun q hq hqd => (Q.row q hq hqd).trans (hrow q hqd).symm, Q.slot, Q.data⟩
  exact Q'.stable S

/-- The rest of an unlink after the slot of the file is dead. -/
theorem lin_clearRecord (P : Pending (.unlink dir n p) (fun b => clearRecord b r)
      (fun f => Function.update f n none) (fun _ => id) x) (B : Parent (.unlink dir n p) blk x) :
    Linear (.unlink dir n p)
      (modify (fun s => s.setBlock blk fun b => clearRecord b r) >>= fun _ =>
        markBufferDirty blk >>= fun _ => syncDirtyBuffer blk >>= fun _ =>
          modify (fun s => s.dDelete dir n) >>= fun _ => ret (.ok ())) ∅ (some (.ok ())) x := by
  refine Protocol.lin_modify fun y R hb => ?_
  have Q := P.stable R
  have K : Coupled y := R.coupled
  obtain ⟨d, hd, hblk⟩ := B.stable R
  have hdata : ∀ b, b ≠ blk → (y.1.setBlock blk fun b => clearRecord b r).data b = y.1.data b :=
    fun b hb => Function.update_of_ne hb _ _
  have hcoupled : Coupled (y.1.setBlock blk fun b => clearRecord b r, y.2) :=
    K.update rfl rfl (fun _ => rfl) fun _ _ _ h => h
  refine ⟨Guar.own K hcoupled le_rfl (fun _ _ => rfl) (fun _ _ => rfl)
    (fun b hb => hdata b fun he => hb d hd (hblk.trans he.symm)) (fun _ => rfl) fun _ => Or.inl rfl,
    fun _ => hb, ?_⟩
  simp only [Protocol.lin_mark, Protocol.lin_sync]
  refine lin_dDelete ⟨Q.inode, Q.row_dir, Q.row, Q.slot, fun j hj => ?_⟩
  obtain rfl := K.inv.at_fun hd hj
  simp only [hblk]
  rw [← hblk, show y.2.data _ = _ from Q.data d hd, hblk]
  exact (Function.update_self blk _ y.1.data).symm

/-- The file has a record in the parent's block. -/
theorem Ready.found {d : ℕ} (Y : Ready (.unlink dir n p) x) (hd : x.2.At dir d) :
    ∃ r, Found dir p n (x.2.store d).dataBlockNumber r
      (recIno (x.2.data (x.2.store d).dataBlockNumber) r) x := by
  obtain ⟨e, r, k, he, hk, hentry, -⟩ := Y.coupled.inv.dentry dir n p Y.allowed.names
  obtain rfl := Y.coupled.inv.at_fun hd he
  obtain ⟨v, hv, hb⟩ := hk
  refine ⟨r, Y.coupled, Y.allowed, ⟨d, hd, rfl⟩, ?_, rfl⟩
  rw [hd.sfs, hv, Option.map_some, Option.getD_some, hb.ino]
  exact Y.coupled.inv.findIno_entry hentry

/-- `simplefs_unlink` reads what the serial state has. -/
theorem Found.real (Q : Found dir p n blk r m x) (F : Settled (.unlink dir n p) x) :
    x.1.data blk = x.2.data blk ∧ findIno (x.1.data blk) (x.1.sfs dir).dirChildrenCount
      ((x.1.inodes p).map Inode.iIno |>.getD 0) = some r := by
  obtain ⟨d, hd, rfl⟩ := Q.parent
  have hdata : x.2.data (x.2.store d).dataBlockNumber = x.1.data (x.2.store d).dataBlockNumber :=
    F.data d hd
  have hdir : x.2.inodes dir = x.1.inodes dir := F.inode dir (Or.inl rfl)
  have hp : x.2.inodes p = x.1.inodes p := F.inode p (Or.inr rfl)
  have hfind := Q.find
  rw [hdata, Fs.sfs, hdir, hp] at hfind
  exact ⟨hdata.symm, hfind⟩

/-- The step of `simplefs_unlink` that changes the private inode of the file. -/
theorem Found.dying (Q : Found dir p n blk r m x) (F : Settled (.unlink dir n p) x) {s : Fs}
    (hs : s = x.1.setSfs p fun z => { z with deadInodeNo := recIno (x.1.data blk) r, inodeNo := 0 }) :
    Guar (.unlink dir n p) h x (s, x.2) ∧ ∃ v₀, Dying dir p n blk r m v₀ (s, x.2) := by
  have K := Q.coupled
  have hsb : s.sb = x.1.sb := by rw [hs]; rfl
  have hstore : s.store = x.1.store := by rw [hs]; rfl
  have hdata : s.data = x.1.data := by rw [hs]; rfl
  have hdcache : s.dcache = x.1.dcache := by rw [hs]; rfl
  have hne : ∀ q, q ≠ p → s.inodes q = x.1.inodes q := fun q hq => by
    rw [hs]
    exact Function.update_of_ne hq _ _
  have hself : s.inodes p = (x.1.inodes p).map (deadInode m) := by
    rw [hs, (Q.real F).1, Q.number]
    exact Function.update_self _ _ _
  have hcoupled : Coupled (s, x.2) := by
    refine K.update hsb hstore ?_ fun _ _ _ h => by rwa [hdcache] at h
    rw [hs]
    exact Fs.setSfs_mode _ _ _
  refine ⟨Guar.own K hcoupled (by rw [hsb]) (fun q hq => hne q fun he => hq (Or.inr (congrArg some he.symm)))
    (fun _ _ => by rw [hdcache]) (fun _ _ => by rw [hdata]) (fun _ => hsb) fun j => Or.inl (by rw [hstore]),
    ?_⟩
  have hp : x.2.inodes p = x.1.inodes p := F.inode p (Or.inr rfl)
  obtain ⟨v₀, hv₀, -⟩ := (Option.any_eq_true _ _).1 Q.allowed.isReg
  refine ⟨v₀, ⟨hcoupled, Q.allowed, Q.parent, Q.find, Q.number⟩,
    ⟨fun q hq => ?_, ?_, fun q hq hqd => ?_, fun q j hq hj => ?_, fun j hj => ?_⟩, ?_⟩
  · show x.2.inodes q = if q = p then some v₀ else s.inodes q
    split_ifs with hqp
    · rw [hqp, hv₀]
    · rw [hne q hqp]
      exact F.inode q hq
  · exact F.row_dir.trans (by rw [hdcache])
  · exact (F.row q hq hqd).trans (by rw [hdcache])
  · exact (congrFun hstore j).trans (F.slot q j hq hj)
  · exact (F.data j hj).trans (by rw [hdata])
  · show s.inodes p = _
    rw [hself, ← hp, hv₀, Option.map_some]

/-- **unlink.** -/
theorem lin_unlink (Y : Ready (.unlink dir n p) x) :
    Linear (.unlink dir n p) (Change.unlink dir n p).prog ∅ none x := by
  simp only [Change.prog, unlink, Prog.bind_assoc]
  refine Protocol.lin_reads fun y R _ => ?_
  replace Y := Y.stable R
  clear R
  obtain ⟨d, hd, -⟩ := Y.at_dir
  have hd : y.2.At dir d := hd
  have hsfs : y.1.sfs dir = y.2.store d := (Y.sfs).trans hd.sfs
  rw [hsfs]
  obtain ⟨r, hr⟩ := Y.found hd
  refine Protocol.lin_reads fun z R _ => ?_
  have Z := Y.stable R
  replace hr := hr.stable R
  rw [(hr.real Z.settled).2]
  simp only [Prog.bind_assoc]
  refine Protocol.lin_modify fun w R hb => ?_
  replace Z := Z.stable R
  replace hr := hr.stable R
  obtain ⟨hguar, v₀, hdying⟩ := hr.dying (h := ∅) Z.settled rfl
  refine ⟨hguar, fun _ => Change.Busy.congr (c := .unlink dir n p) (Fs.setSfs_mode _ _ _) rfl hb, ?_⟩
  clear hguar hb
  simp only [inodeSave, Prog.bind_assoc]
  refine Protocol.lin_lock fun y R _ => ?_
  replace hdying := hdying.stable R
  simp only [Bool.false_eq_true, if_false, step_bind, ret_bind]
  refine Protocol.lin_effect fun z R hb => ?_
  replace hdying := hdying.stable R
  obtain ⟨⟨k, hk⟩, v, hserial, hguar, hpending, hparent⟩ := hdying.effect
  refine ⟨.ok (), v, hserial, hguar, fun _ => Change.Busy.congr (c := .unlink dir n p)
    (fun q => by rw [saveSlot_inodes]) (saveSlot_dcache p z.1) hb, ?_⟩
  rw [hk]
  simp only [Prog.bind_assoc, Protocol.lin_mark, Protocol.lin_sync]
  refine Protocol.lin_unlock (Set.notMem_empty _) fun u R => ⟨fun h => absurd h (by decide), ?_⟩
  exact lin_clearRecord (hpending.stable R) (hparent.stable R)

end

end Simplefs
