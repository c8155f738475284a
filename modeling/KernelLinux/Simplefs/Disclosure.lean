/-
  simplefs — no disclosure of old data.

  `no_disclosure` is about the runs in which no write skips foreign bytes past the
  end of a file (`Op.GapClean`) and no read or write goes through the inode of a
  file whose number was given to a new object (`Op.Keeps`): what is read from a
  file was written to it or is zero, and does not depend on anything else.  A
  write that skips bytes makes those of an unlinked file readable
  (`writeB_discloses`).
-/
import KernelLinux.Simplefs.Handles
import KernelLinux.Simplefs.Provenance

namespace Simplefs

open Bytes Prog

/-! ## Runs -/

/-- A write ends within the block. -/
def Op.InBlock : Op → Prop
  | .write (.ok (pos, len)) _ _ => pos + len ≤ SIMPLEFS_DEFAULT_BLOCK_SIZE
  | _ => True

/-- A read, or a write that is not refused, is through an inode whose number was not given to a new
    object. -/
def Op.Keeps (v : Prov) : Op → Prop
  | .write (.ok _) p _ => v.lost p = false
  | .read p _ _ _ => v.lost p = false
  | _ => True

/-- A write past the end of a file skips bytes only that are the file's own, or zero. -/
def Op.GapClean (s : Fs) (v : Prov) : Op → Prop
  | .write (.ok (pos, len)) p user => Simplefs.GapClean v s p ⟨pos, len, user⟩
  | _ => True

/-- A call the VFS makes, with the provenance kept alongside. -/
structure Op.ProvStep [Target] (c : Fs × Prov) (l : Op × Outcome) (c' : Fs × Prov) : Prop where
  allowed : l.1.Allowed c.1
  inBlock : l.1.InBlock
  exec : l.1.exec c.1 = (l.2, c'.1)
  prov : c'.2 = c.2.after c.1 c'.1 l.1 l.2

/-- A call that neither skips foreign bytes nor uses the inode of a file whose number is gone. -/
structure Op.OwnStep [Target] (c : Fs × Prov) (l : Op × Outcome) (c' : Fs × Prov) : Prop
    extends Op.ProvStep c l c' where
  keeps : l.1.Keeps c.2
  gapClean : l.1.GapClean c.1 c.2

section
variable [Target] {s : Fs}

/-- **What the inodes that are kept hold is what was written through them.** -/
theorem Op.OwnStep.ok {c c' : Fs × Prov} {l : Op × Outcome} (h : Op.OwnStep c l c')
    (O : c.2.Ok c.1) : c'.2.Ok c'.1 := by
  obtain ⟨op, out⟩ := l
  obtain ⟨s, v⟩ := c
  obtain ⟨s', v'⟩ := c'
  have hclear : op.Clear s := by
    cases op with
    | write wc p user =>
      obtain e | w := wc
      · trivial
      intro h0 k hk hnum
      obtain ⟨u, hu, -⟩ := (Option.any_eq_true _ _).1 (show s.isReg p = true from h.allowed)
      obtain ⟨j, hj⟩ := O.of_inode hu
      obtain rfl : j = k := by
        refine O.number_inj j hj.lt k hk.1 ?_
        rw [← hj.number, SimplefsInode.number_dead h0, hk.number, hnum]
      rw [(O.live_at p j hj h.keeps hk).sfs] at h0
      exact hk.2 h0
    | create | mkdir | unlink | read | lookup | evict | remount => trivial
  have hdoes := Op.does O.toFsInv h.allowed hclear
  rw [show op.exec s = (out, s') from h.exec] at hdoes
  have hv : v' = v.after s s' op out := h.prov
  subst hv
  cases hdoes with
  | @createFail new => cases new <;> exact O
  | @mkdirFail new => cases new <;> exact O
  | create C hm => exact O.created C (Or.inr ⟨rfl, hm ▸ h.allowed.2⟩)
  | mkdir C _ => exact O.created C (Or.inl rfl)
  | unlink U => exact O.unlinked U
  | writeFail => exact O
  | @write pos len p user k _ W => exact O.wrote (w := ⟨pos, len, user⟩) W h.gapClean
  | @writeStale pos len p user k _ _ W =>
    exact O.wroteStale (w := ⟨pos, len, user⟩) W h.keeps h.gapClean
  | read => exact O
  | absent _ _ => exact O
  | lookup L => exact O.looked L
  | evict hp hx => exact O.evict hp hx
  | remount M => exact M.ok O.toStoreInv

/-- A state reached from the mount of a consistent image by such calls. -/
def Kept (c : Fs × Prov) : Prop := ∃ g s₀ ls, StoreInv g ∧ fillSuper g = .ok s₀ ∧
  Run Op.OwnStep (s₀, Prov.start) ls c

theorem Kept.ok {c : Fs × Prov} (h : Kept c) : c.2.Ok c.1 := by
  obtain ⟨g, s₀, ls, H, h₀, hr⟩ := h
  obtain ⟨s₁, h₁, M⟩ := mount_spec H
  rw [h₀] at h₁
  obtain rfl := Except.ok.inj h₁
  exact Run.inv (I := fun c => c.2.Ok c.1) (fun _ _ _ O hs => hs.ok O) (M.ok H) hr

theorem Kept.run {c d : Fs × Prov} {ls : List (Op × Outcome)} (h : Kept c) (hr : Run Op.OwnStep c ls d) :
    Kept d := by
  obtain ⟨g, s₀, ks, H, h₀, h⟩ := h
  exact ⟨g, s₀, _, H, h₀, h.append hr⟩

/-! ## Reads -/

/-- What a read of a file to which the writes `l` were made returns. -/
def readText (l : List Write) (pos len room : ℕ) : Except Errno (List UInt8 × ℕ) :=
  if textSize l ≤ pos then .ok ([], pos)
  else
    let n := min (textSize l) len
    if room < n then .error .efault else .ok ((content l).read 0 n, pos + n)

omit [Target] in
theorem Own.read {p : ℕ} {l : List Write} (h : Own s p l) (pos len room : ℕ) :
    ((read p pos len room).exec s).1 = readText l pos len room := by
  have hbytes : (s.data (s.sfs p).dataBlockNumber).read 0 (min (textSize l) len) =
      (content l).read 0 (min (textSize l) len) := by
    refine Block.read_congr fun i hi => ?_
    rw [Nat.zero_add]
    exact h.bytes i (lt_of_lt_of_le hi (min_le_left _ _))
  simp only [Simplefs.read, exec_reads, SimplefsInode.fileSize, h.size, hbytes]
  rfl

omit [Target] in
theorem readText_origin {l : List Write} {pos len room n : ℕ} {bs : List UInt8}
    (h : readText l pos len room = .ok (bs, n)) {i : ℕ} {c : UInt8} (hc : bs[i]? = some c) :
    c = 0 ∨ ∃ w ∈ l, w.Puts i c := by
  unfold readText at h
  simp only at h
  split_ifs at h
  · obtain ⟨rfl, -⟩ := Prod.mk.inj (Except.ok.inj h)
    simp at hc
  · obtain ⟨rfl, -⟩ := Prod.mk.inj (Except.ok.inj h)
    rw [Block.getElem?_read] at hc
    split_ifs at hc
    obtain rfl := Option.some.inj hc
    rw [Nat.zero_add]
    exact content_origin l i

/-! ## Two runs -/

/-- How a call changes the writes known of the inode at `p`. -/
inductive LogStep (p : ℕ) : Op → Option (List Write) → List Write → Prop
  | born {a dir x mode} : a.addr = p → LogStep p (.create (some a) dir x mode) none []
  | wrote {pos len user l} :
      LogStep p (.write (.ok (pos, len)) p user) (some l) (⟨pos, len, user⟩ :: l)
  | other {op l} : (∀ pos len user, op ≠ .write (.ok (pos, len)) p user) →
      (∀ a dir x mode, op = .create (some a) dir x mode → a.addr ≠ p) → LogStep p op (some l) l

omit [Target] in
theorem LogStep.det {p : ℕ} {op : Op} {o o' : Option (List Write)} {l l' : List Write}
    (ho : ∀ m m', o = some m → o' = some m' → m = m') (h : LogStep p op o l)
    (h' : LogStep p op o' l') : l = l' := by
  cases h with
  | born ha =>
    cases h' with
    | born _ => rfl
    | other _ hne => exact absurd ha (hne _ _ _ _ rfl)
  | wrote =>
    cases h' with
    | wrote => rw [ho _ _ rfl rfl]
    | other hne _ => exact absurd rfl (hne _ _ _)
  | other hw hc =>
    cases h' with
    | born ha => exact absurd ha (hc _ _ _ _ rfl)
    | wrote => exact absurd rfl (hw _ _ _)
    | other _ _ => exact ho _ _ rfl rfl

omit [Target] in
/-- A write through another inode changes nothing. -/
theorem LogStep.of_ne {p q : ℕ} {wc : Except Errno (ℕ × ℕ)} {user : List UInt8}
    {o : Option (List Write)} {l : List Write} (hq : q ≠ p) (h : LogStep p (.write wc q user) o l) :
    o = some l := by
  cases h with
  | wrote => exact absurd rfl hq
  | other _ _ => rfl

omit [Target] in
theorem of_update_none {α β : Type} [DecidableEq α] {f : α → Option β} {p q : α} {b : β}
    (h : Function.update f q none p = some b) : f p = some b := by
  by_cases hq : p = q
  · subst hq
    rw [Function.update_self] at h
    simp at h
  · rwa [Function.update_of_ne hq] at h

omit [Target] in
theorem LogStep.same {p : ℕ} {op : Op} {o : Option (List Write)} {l : List Write} (ho : o = some l)
    (hw : ∀ pos len user, op ≠ .write (.ok (pos, len)) p user)
    (hc : ∀ a dir x mode, op = .create (some a) dir x mode → a.addr ≠ p) : LogStep p op o l :=
  ho ▸ .other hw hc

section
variable {s s' : Fs} {v : Prov} {p q : ℕ} {l : List Write}

/-- A known inode is not where a new one is allocated. -/
theorem Prov.Ok.ne_fresh (O : v.Ok s) (hq : s.inodes q = none) (hl : v.log p = some l) : q ≠ p := by
  rintro rfl
  have := O.present q l hl
  rw [hq] at this
  simp at this

theorem LogStep.create (O : v.Ok s) {a : NewInode} {dir mode : ℕ} {x : Name} {out : Outcome}
    (hfresh : s.inodes a.addr = none)
    (hl : (v.after s s' (.create (some a) dir x mode) out).log p = some l) :
    LogStep p (.create (some a) dir x mode) (v.log p) l := by
  have hold : v.log p = some l → LogStep p (.create (some a) dir x mode) (v.log p) l := by
    intro hv
    refine .same hv (by rintro _ _ _ ⟨⟩) ?_
    rintro _ _ _ _ ⟨⟩
    exact O.ne_fresh hfresh hv
  rcases out with ⟨e | _⟩ | _ | _ | _
  · exact hold hl
  · by_cases ha : a.addr = p
    · have hl' : some [] = some l := by
        rw [← hl, ← ha]
        exact (Function.update_self (f := v.log) _ _).symm
      obtain rfl := Option.some.inj hl'
      have hnone : v.log p = none := by
        by_contra hne
        obtain ⟨m, hm⟩ := Option.ne_none_iff_exists'.1 hne
        exact O.ne_fresh hfresh hm ha
      rw [hnone]
      exact .born ha
    · exact hold (by rw [← hl]; exact (Function.update_of_ne (Ne.symm ha) _ _).symm)
  · exact hold hl
  · exact hold hl
  · exact hold hl

omit [Target] in
theorem LogStep.write {pos len : ℕ} {user : List UInt8} (hl : (v.wrote q ⟨pos, len, user⟩).log p = some l) :
    LogStep p (.write (.ok (pos, len)) q user) (v.log p) l := by
  by_cases hq : q = p
  · subst hq
    have hmap : (v.log q).map (⟨pos, len, user⟩ :: ·) = some l := by
      rw [← hl]
      exact (Function.update_self (f := v.log) _ _).symm
    obtain ⟨m, hm, rfl⟩ := Option.map_eq_some_iff.1 hmap
    rw [hm]
    exact .wrote
  · refine .same ?_ (by rintro _ _ _ ⟨⟩; exact hq rfl) (by rintro _ _ _ _ ⟨⟩)
    rw [← hl]
    exact (Function.update_of_ne (Ne.symm hq) _ _).symm

end

theorem Op.ProvStep.log {c c' : Fs × Prov} {op : Op × Outcome} (h : Op.ProvStep c op c')
    (O : c.2.Ok c.1) {p : ℕ} {l : List Write} (hl : c'.2.log p = some l) :
    LogStep p op.1 (c.2.log p) l := by
  obtain ⟨op, out⟩ := op
  obtain ⟨s, v⟩ := c
  obtain ⟨s', v'⟩ := c'
  have hv : v' = v.after s s' op out := h.prov
  subst hv
  cases op with
  | create new dir x mode =>
    cases new with
    | none => exact .same hl (by rintro _ _ _ ⟨⟩) (by rintro _ _ _ _ ⟨⟩)
    | some a => exact .create O (h.allowed.1.fresh a rfl) hl
  | mkdir new dir x mode =>
    refine .same ?_ (by rintro _ _ _ ⟨⟩) (by rintro _ _ _ _ ⟨⟩)
    rcases new with _ | a
    · exact hl
    · rcases out with ⟨e | _⟩ | _ | _ | _
      · exact hl
      · exact of_update_none hl
      · exact hl
      · exact hl
      · exact hl
  | write wc q user =>
    obtain e | ⟨pos, len⟩ := wc
    · exact .same hl (by rintro _ _ _ ⟨⟩) (by rintro _ _ _ _ ⟨⟩)
    · exact .write hl
  | lookup dir x q =>
    refine .same ?_ (by rintro _ _ _ ⟨⟩) (by rintro _ _ _ _ ⟨⟩)
    rcases out with _ | _ | _ | ⟨_ | _ | _⟩
    · exact hl
    · exact hl
    · exact hl
    · exact hl
    · exact of_update_none hl
    · exact hl
  | evict q => exact .same (of_update_none hl) (by rintro _ _ _ ⟨⟩) (by rintro _ _ _ _ ⟨⟩)
  | remount => simp [Prov.after, Prov.start] at hl
  | unlink | read => exact .same hl (by rintro _ _ _ ⟨⟩) (by rintro _ _ _ _ ⟨⟩)

/-- The same call, or writes through another inode than the one at `p`. -/
def SameBut (p : ℕ) (a b : Op × Outcome) : Prop :=
  a.1 = b.1 ∨ ∃ wc wc' q user user', q ≠ p ∧ a.1 = .write wc q user ∧ b.1 = .write wc' q user'

/-- **No disclosure of old data.**  Every byte read from a file created during the run is zero or
    was written to that file; and two runs that, since before the file was created, differ in
    writes to other files only read the same from it. -/
theorem no_disclosure {c : Fs × Prov} (hc : Kept c) {p : ℕ} {l : List Write}
    (hl : c.2.log p = some l) (hp : c.2.lost p = false) (pos len room : ℕ) :
    (∀ bs n, ((read p pos len room).exec c.1).1 = .ok (bs, n) → ∀ i b, bs[i]? = some b →
      b = 0 ∨ ∃ w ∈ l, w.Puts i b) ∧
    ∀ m m' c' ls ls' l', Kept m → Kept m' → m.2.log p = none → m'.2.log p = none →
      Run Op.OwnStep m ls c → Run Op.OwnStep m' ls' c' → List.Forall₂ (SameBut p) ls ls' →
      c'.2.log p = some l' → c'.2.lost p = false →
      ((read p pos len room).exec c.1).1 = ((read p pos len room).exec c'.1).1 := by
  have own := hc.ok.own p l hl hp
  rw [own.read]
  refine ⟨fun bs n h i b hb => readText_origin h hb, ?_⟩
  intro m m' c' ls ls' l' hm hm' hlm hlm' hr hr' hS hl' hp'
  have hlock : c.2.Ok c.1 ∧ c'.2.Ok c'.1 ∧ ∀ l l', c.2.log p = some l → c'.2.log p = some l' →
      l = l' := by
    refine Run.lockstep (R := fun c c' : Fs × Prov => c.2.Ok c.1 ∧ c'.2.Ok c'.1 ∧
      ∀ l l', c.2.log p = some l → c'.2.log p = some l' → l = l') (S := SameBut p) ?_
      ⟨hm.ok, hm'.ok, fun l l' h => by rw [hlm] at h; simp at h⟩ hr hr' hS
    rintro c op d c' op' d' ⟨O, O', hlog⟩ hop hs hs'
    refine ⟨hs.ok O, hs'.ok O', fun l l' h h' => ?_⟩
    have h₁ := hs.toProvStep.log O h
    have h₂ := hs'.toProvStep.log O' h'
    rcases hop with hop | ⟨wc, wc', q, user, user', hq, hw, hw'⟩
    · exact (h₁.det hlog) (hop ▸ h₂)
    · rw [hw] at h₁
      rw [hw'] at h₂
      exact hlog l l' (h₁.of_ne hq) (h₂.of_ne hq)
  rw [hlock.2.2 l l' hl hl', (hlock.2.1.own p l' hl' hp').read]

end

/-! ## A run that discloses -/

/-- The call leads from the state and provenance `c` to those after it. -/
def Op.next [Target] (c : Fs × Prov) (op : Op) : Fs × Prov :=
  ((op.exec c.1).2, c.2.after c.1 (op.exec c.1).2 op (op.exec c.1).1)

theorem Op.provStep [Target] (c : Fs × Prov) (op : Op) (h : op.Allowed c.1) (hb : op.InBlock) :
    Op.ProvStep c (op, (op.exec c.1).1) (op.next c) :=
  ⟨h, hb, rfl, rfl⟩

section

attribute [local instance] x86

def knownA : Fs × Prov := createA.next (blankFs, Prov.start)
def writtenA : Fs × Prov := writeA.next knownA
def removedA : Fs × Prov := unlinkA.next writtenA
def knownB : Fs × Prov := createB.next removedA

/-- A write of one byte that skips another one. -/
def writeB : Op := .write (.ok (1, 1)) 2 [89]

theorem knownA_kept : Kept knownA :=
  ⟨mkfs blankDisk 0, blankFs, _, mkfs_inv, blankFs_mount, .single
    ⟨Op.provStep (blankFs, Prov.start) createA createA_step.allowed trivial, trivial, trivial⟩⟩

/-- Two bytes for the first file, and one for the second. -/
def fillA (u : Bool) : Op := .write (.ok (0, 2)) 1 (if u then [88, 88] else [90, 90])
def fillB : Op := .write (.ok (0, 1)) 2 [89]

/-- The states after `fillA u`, then `unlinkA`, `createB` and `fillB`. -/
def filledA (u : Bool) : Fs × Prov := (fillA u).next knownA
def goneA (u : Bool) : Fs × Prov := unlinkA.next (filledA u)
def reusedA (u : Bool) : Fs × Prov := createB.next (goneA u)
def filledB (u : Bool) : Fs × Prov := fillB.next (reusedA u)

theorem filledB_run (u : Bool) : ∃ a b c d, Run Op.OwnStep knownA
    [(fillA u, a), (unlinkA, b), (createB, c), (fillB, d)] (filledB u) := by
  have hgap : ∀ (c : Fs × Prov) len p user, Op.GapClean c.1 c.2 (.write (.ok (0, len)) p user) :=
    fun _ _ _ _ l _ _ i _ hi => absurd hi (Nat.not_lt_zero i)
  have h1 : Op.OwnStep knownA _ (filledA u) :=
    ⟨Op.provStep knownA (fillA u) (by decide : createdA.isReg 1 = true) (by decide : 0 + 2 ≤ 4096),
      (by decide : knownA.2.lost 1 = false), hgap _ _ _ _⟩
  have h2 : Op.OwnStep (filledA u) _ (goneA u) :=
    ⟨Op.provStep (filledA u) unlinkA ⟨1, by cases u <;> decide, by cases u <;> decide⟩ trivial, trivial, trivial⟩
  have h3 : Op.OwnStep (goneA u) (createB, (createB.exec (goneA u).1).1) (reusedA u) := by
    refine ⟨Op.provStep (goneA u) createB ⟨⟨?_, by decide, ?_, ?_, fun a ha => ?_⟩, rfl⟩ trivial, trivial, trivial⟩
    · cases u <;> decide
    · cases u <;> decide
    · unfold Fs.Has
      cases u <;> decide
    · obtain rfl := Option.some.inj ha
      cases u <;> decide
  have h4 : Op.OwnStep (reusedA u) _ (filledB u) :=
    ⟨Op.provStep (reusedA u) fillB (show (reusedA u).1.isReg 2 = true by cases u <;> decide)
      (by decide : 0 + 1 ≤ 4096), (show (reusedA u).2.lost 2 = false by cases u <;> decide), hgap _ _ _ _⟩
  exact ⟨_, _, _, _, .snoc (.snoc (.snoc (.single h1) h2) h3) h4⟩

/-- What is read of the second file was written to it, and does not tell what the first one held. -/
theorem no_disclosure_filledB :
    (∀ bs n, ((read 2 0 1 1).exec (filledB true).1).1 = .ok (bs, n) → ∀ i b, bs[i]? = some b →
      b = 0 ∨ ∃ w ∈ ([⟨0, 1, [89]⟩] : List Write), w.Puts i b) ∧
    ((read 2 0 1 1).exec (filledB true).1).1 = ((read 2 0 1 1).exec (filledB false).1).1 := by
  obtain ⟨a, b, c, d, hrun⟩ := filledB_run true
  obtain ⟨a', b', c', d', hrun'⟩ := filledB_run false
  have hkept : Kept (filledB true) := knownA_kept.run hrun
  have h := no_disclosure hkept (p := 2) (l := [⟨0, 1, [89]⟩]) rfl (by decide) 0 1 1
  refine ⟨h.1, h.2 knownA knownA (filledB false) _ _ [⟨0, 1, [89]⟩] knownA_kept knownA_kept rfl rfl
    hrun hrun' ?_ rfl (by decide)⟩
  exact .cons (Or.inr ⟨_, _, 1, _, _, by decide, rfl, rfl⟩)
    (.cons (Or.inl rfl) (.cons (Or.inl rfl) (.cons (Or.inl rfl) .nil)))

/-- The block of the first file goes to the second, and a write that skips a byte makes the byte
    written to the first one readable. -/
theorem writeB_discloses : ¬ ∀ (c : Fs × Prov) (ls : List (Op × Outcome)) (p : ℕ) (l : List Write),
    Run Op.ProvStep (blankFs, Prov.start) ls c → c.2.log p = some l → c.2.lost p = false →
    ∀ pos len room bs n, ((read p pos len room).exec c.1).1 = .ok (bs, n) → ∀ i b, bs[i]? = some b →
      b = 0 ∨ ∃ w ∈ l, w.Puts i b := by
  intro h
  have hrun : ∃ ls, Run Op.ProvStep (blankFs, Prov.start) ls (writeB.next knownB) := by
    have hcreate := Op.provStep (blankFs, Prov.start) createA createA_step.allowed trivial
    refine ⟨_, .snoc (.snoc (.snoc (.snoc (.single hcreate)
      (Op.provStep knownA writeA ?_ ?_))
      (Op.provStep writtenA unlinkA ?_ trivial))
      (Op.provStep removedA createB ?_ trivial))
      (Op.provStep knownB writeB ?_ ?_)⟩
    · show createdA.isReg 1 = true
      decide
    · show 0 + 1 ≤ SIMPLEFS_DEFAULT_BLOCK_SIZE
      decide
    · exact ⟨1, by decide, by decide⟩
    · refine ⟨⟨by decide, by decide, by decide, ?_, fun a ha => ?_⟩, rfl⟩
      · unfold Fs.Has
        decide
      · obtain rfl := Option.some.inj ha
        rfl
    · show knownB.1.isReg 2 = true
      decide
    · show 1 + 1 ≤ SIMPLEFS_DEFAULT_BLOCK_SIZE
      decide
  obtain ⟨ls, hrun⟩ := hrun
  have hread : ((read 2 0 2 2).exec (writeB.next knownB).1).1 = .ok ([88, 89], 2) := by
    decide +kernel
  rcases h _ ls 2 [⟨1, 1, [89]⟩] hrun rfl (by decide) 0 2 2 _ _ hread 0 88 rfl with h0 | ⟨w, hw, hp⟩
  · exact absurd h0 (by decide)
  · obtain rfl := List.mem_singleton.1 hw
    exact absurd hp.1 (by decide)

end

end Simplefs
