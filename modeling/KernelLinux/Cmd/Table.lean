/-
  The command table of `c_object/cmd`.

  `register_cmd` appends the entries of an array to the list `pscmd` by the entries' own `next` links,
  and `handle_cmd` runs the handler of the first entry with its command.  The entry that is appended
  keeps the link it has, so that an entry that is in the list already closes a circle.

  * `registerCmd`, `handleCmd`: the two functions, with the number of rounds that their loops may make;
  * `Table`: the list holds the entries in the order of their registration, and no other entry is linked;
  * `append_new`, `append_again`: what one more entry does;
  * `works_iff`: which registrations leave a table that works.
-/
import KernelLinux.Lib.Links
import Mathlib.Data.List.Induction
import Mathlib.Data.List.Nodup
import Mathlib.Data.List.TakeWhile

namespace Cmd

/-- `struct stCmd` without its link; `H` are the handlers. -/
structure StCmd (H : Type*) where
  cmd : BitVec 32
  cmdOpt : H

/-- `pscmd` and the `next` fields before the first registration. -/
def emptyTable : Links ℕ := ⟨none, fun _ => none⟩

/-- The loop of `register_cmd` at entry `i`, with `n` entries left; `cmd[i]` is the entry `cmd + i`. -/
def registerLoop (fuel cmd : ℕ) : ℕ → ℕ → Links ℕ → Option (Links ℕ)
  | 0, _, l => some l
  | n + 1, i, l => (Loop.run (l.walkStep fun _ => false) fuel .head).bind fun tmp =>
    registerLoop fuel cmd n (i + 1) (l.set tmp (some (cmd + i)))

/-- `register_cmd` -/
def registerCmd (fuel cmd : ℕ) (num : ℤ) (l : Links ℕ) : Option (Links ℕ) :=
  registerLoop fuel cmd num.toNat 0 l

/-- Calls of `register_cmd` one after the other. -/
def registerAll (fuel : ℕ) : List (ℕ × ℤ) → Links ℕ → Option (Links ℕ)
  | [], l => some l
  | (cmd, num) :: calls, l => (registerCmd fuel cmd num l).bind (registerAll fuel calls)

/-- The entries of calls in the order of their registration. -/
def entries (calls : List (ℕ × ℤ)) : List ℕ :=
  calls.flatMap fun call => (List.range call.2.toNat).map (call.1 + ·)

section
variable {H : Type*} (entry : ℕ → StCmd H)

/-- What `handle_cmd` does with the entry that it found: the handler that is run, and the result. -/
def answer : Option ℕ → Option H × ℤ
  | some tmp => (some (entry tmp).cmdOpt, 0)
  | none => (none, -1)

/-- `handle_cmd` -/
def handleCmd (fuel : ℕ) (l : Links ℕ) (cmd : BitVec 32) : Option (Option H × ℤ) :=
  (Loop.run (l.findStep fun tmp => (entry tmp).cmd = cmd) fuel l.head).map (answer entry)

/-- All the calls of `register_cmd` end, and every call of `handle_cmd` after them, with the entry that
    was registered first. -/
def Works (calls : List (ℕ × ℤ)) : Prop :=
  ∃ l, Ends (fun fuel => registerAll fuel calls emptyTable) l ∧ ∀ cmd,
    Ends (fun fuel => handleCmd entry fuel l cmd)
      (answer entry ((entries calls).find? fun a => (entry a).cmd = cmd))

end

/-! ## The entries, appended one by one -/

/-- What registers the entries of a list. -/
def appendAll (fuel : ℕ) : List ℕ → Links ℕ → Option (Links ℕ)
  | [], l => some l
  | e :: es, l => (Loop.run (l.walkStep fun _ => false) fuel .head).bind fun tmp =>
    appendAll fuel es (l.set tmp (some e))

theorem appendAll_append (fuel : ℕ) (es es' : List ℕ) (l : Links ℕ) : appendAll fuel (es ++ es') l =
    (appendAll fuel es l).bind (appendAll fuel es') := by
  induction es generalizing l with
  | nil => rfl
  | cons e es ih =>
    rw [List.cons_append, appendAll, appendAll, Option.bind_assoc]
    simp only [ih]

theorem registerLoop_eq (fuel cmd n i : ℕ) (l : Links ℕ) : registerLoop fuel cmd n i l =
    appendAll fuel ((List.range' i n).map (cmd + ·)) l := by
  induction n generalizing i l with
  | zero => rfl
  | succ n ih =>
    rw [registerLoop, List.range'_succ, List.map_cons, appendAll]
    simp only [ih]

theorem registerAll_eq (fuel : ℕ) (calls : List (ℕ × ℤ)) (l : Links ℕ) : registerAll fuel calls l =
    appendAll fuel (entries calls) l := by
  induction calls generalizing l with
  | nil => rfl
  | cons call calls ih =>
    rw [registerAll, registerCmd, registerLoop_eq, ← List.range_eq_range', entries, List.flatMap_cons,
      appendAll_append]
    exact congrArg _ (funext ih)

/-- The list holds the entries `xs`, and no other entry is linked. -/
structure Table (l : Links ℕ) (xs : List ℕ) : Prop where
  chain : l.Chain .head xs
  others : ∀ a, a ∉ xs → l.next a = none

theorem table_empty : Table emptyTable [] := ⟨Links.chain_nil.2 rfl, fun _ _ => rfl⟩

section
variable {l : Links ℕ} {xs es : List ℕ} {e : ℕ}

/-- The search for the end of the list. -/
theorem walk_end (h : Table l xs) :
    Ends (fun fuel => Loop.run (l.walkStep fun _ => false) fuel .head) (Links.behind .head xs) := by
  have hwalk := Links.walk_ends h.chain fun _ => false
  have hall : xs.takeWhile (fun _ => !false) = xs := List.takeWhile_eq_self_iff.2 fun _ _ => rfl
  rwa [hall] at hwalk

/-- One entry is linked at the end of the list. -/
theorem ends_appendAll_cons (h : Table l xs) {l' : Links ℕ} :
    Ends (fun fuel => appendAll fuel (e :: es) l) l' ↔
      Ends (fun fuel => appendAll fuel es (l.set (Links.behind .head xs) (some e))) l' :=
  Ends.bind_iff (walk_end h)

/-- **An entry that is not in the table** goes to its end. -/
theorem append_new (h : Table l xs) (he : e ∉ xs) :
    Table (l.set (Links.behind .head xs) (some e)) (xs ++ [e]) := by
  have hend : l.get (Links.behind .head xs) = none := h.chain.2
  constructor
  · have hlink : l.set (.next e) (l.get (Links.behind .head xs)) = l := by
      rw [hend]
      exact Links.set_get (h.others e he)
    have hchain : l.Chain .head (xs ++ []) := by rw [List.append_nil]; exact h.chain
    have hinsert := Links.chain_insert hchain (by rwa [List.append_nil])
    rwa [hlink] at hinsert
  · intro a ha
    rw [List.mem_append, List.mem_singleton, not_or] at ha
    have hne : Slot.next a ≠ Links.behind .head xs := by
      refine (Links.behind_ne (Slot.head_ne_next a) ?_).symm
      rintro b hb ⟨⟩
      exact ha.1 hb
    exact (Links.get_set_of_ne hne).trans (h.others a ha.1)

/-- **An entry that is in the table** makes it a circle, which still leads through all entries first. -/
theorem append_again (h : Table l xs) (he : e ∈ xs) :
    (l.set (Links.behind .head xs) (some e)).Circular xs ∧
      (l.set (Links.behind .head xs) (some e)).Path .head xs := by
  have hpath : (l.set (Links.behind .head xs) (some e)).Path .head xs :=
    h.chain.1.set_behind (fun a _ => (Slot.head_ne_next a).symm) h.chain.nodup
  exact ⟨hpath.circular he Links.get_set_self, hpath⟩

theorem appendAll_new (h : Table l xs) (hnodup : (xs ++ es).Nodup) :
    ∃ l', Ends (fun fuel => appendAll fuel es l) l' ∧ Table l' (xs ++ es) := by
  induction es generalizing l xs with
  | nil => exact ⟨l, Ends.pure l, by rwa [List.append_nil]⟩
  | cons e es ih =>
    rw [List.append_cons] at hnodup ⊢
    have he : e ∉ xs := by
      have hparts := (List.nodup_append.1 (List.nodup_append.1 hnodup).1).2.2
      exact fun hmem => hparts e hmem e (List.mem_singleton_self e) rfl
    obtain ⟨l', hends, htable⟩ := ih (append_new h he) hnodup
    exact ⟨l', (ends_appendAll_cons h).2 hends, htable⟩

/-- **Behind an entry that was in the table**, no other registration ends. -/
theorem appendAll_never (h : l.Circular xs) : Never fun fuel => appendAll fuel (e :: es) l :=
  (Links.walk_never h fun _ _ => rfl).bind _

/-- **A registration behind one of an entry that was registered** does not end. -/
theorem appendAll_stuck {q : ℕ} (hxs : xs.Nodup) (he : e ∈ xs) (l : Links ℕ) :
    ¬ Ends (fun fuel => appendAll fuel (xs ++ e :: q :: es) emptyTable) l := by
  obtain ⟨l₁, hends₁, htable⟩ := appendAll_new table_empty (List.nil_append xs ▸ hxs)
  simp only [appendAll_append]
  intro hends
  have hrest := (ends_appendAll_cons htable).1 ((Ends.bind_iff hends₁).1 hends)
  exact hrest.not_never (appendAll_never (append_again htable he).1)

end

/-! ## Which registrations work -/

/-- The first entry that occurs again. -/
theorem exists_again {es : List ℕ} (h : ¬ es.Nodup) :
    ∃ ps e qs, es = ps ++ e :: qs ∧ ps.Nodup ∧ e ∈ ps := by
  induction es using List.reverseRecOn with
  | nil => exact absurd List.nodup_nil h
  | append_singleton es e ih =>
    by_cases hes : es.Nodup
    · refine ⟨es, e, [], rfl, hes, ?_⟩
      by_contra he
      exact h (List.nodup_append.2 ⟨hes, List.nodup_singleton e, fun a ha b hb hab =>
        he ((List.mem_singleton.1 hb) ▸ hab ▸ ha)⟩)
    · obtain ⟨ps, f, qs, rfl, hps, hf⟩ := ih hes
      exact ⟨ps, f, qs ++ [e], by rw [List.append_assoc, List.cons_append], hps, hf⟩

section
variable {H : Type*} (entry : ℕ → StCmd H) {l : Links ℕ} {xs : List ℕ} {cmd : BitVec 32}

/-- A command that has an entry, whatever follows the entries. -/
theorem handle_found {a : ℕ} (h : l.Path .head xs)
    (ha : xs.find? (fun a => (entry a).cmd = cmd) = some a) :
    Ends (fun fuel => handleCmd entry fuel l cmd) (answer entry (some a)) :=
  (Links.find_ends h ha).map (answer entry)

/-- **`handle_cmd` on a table.** -/
theorem handle_table (h : Table l xs) : Ends (fun fuel => handleCmd entry fuel l cmd)
    (answer entry (xs.find? fun a => (entry a).cmd = cmd)) := by
  cases hfind : xs.find? fun a => (entry a).cmd = cmd with
  | some a => exact handle_found entry h.chain.1 hfind
  | none => exact (Links.find_ends_none h.chain hfind).map (answer entry)

/-- **`handle_cmd` on a circle** does not return without an entry for the command. -/
theorem handle_circular (h : l.Circular xs) (hnone : ∀ a ∈ xs, (entry a).cmd ≠ cmd) :
    Never fun fuel => handleCmd entry fuel l cmd :=
  (Links.find_never h fun a ha => decide_eq_false (hnone a ha)).map _

/-- **Which registrations work**: those of different entries, and also those that come to an end with an
    entry that was registered, if there is an entry for every command. -/
theorem works_iff (calls : List (ℕ × ℤ)) : Works entry calls ↔ (entries calls).Nodup ∨
    (entries calls).dropLast.Nodup ∧ ∀ cmd, ∃ a ∈ entries calls, (entry a).cmd = cmd := by
  simp only [Works, registerAll_eq]
  generalize entries calls = es
  by_cases hnodup : es.Nodup
  · refine iff_of_true ?_ (Or.inl hnodup)
    obtain ⟨l, hends, htable⟩ := appendAll_new table_empty (List.nil_append es ▸ hnodup)
    exact ⟨l, hends, fun cmd => handle_table entry htable⟩
  obtain ⟨ps, e, qs, rfl, hps, he⟩ := exists_again hnodup
  rw [or_iff_right hnodup]
  cases qs with
  | cons q qs =>
    refine iff_of_false ?_ ?_
    · rintro ⟨l, hends, -⟩
      exact appendAll_stuck hps he l hends
    · rintro ⟨hlast, -⟩
      rw [List.dropLast_append_cons, List.dropLast_cons_cons] at hlast
      exact (List.nodup_append.1 hlast).2.2 e he e List.mem_cons_self rfl
  | nil =>
    obtain ⟨l₁, hends₁, htable⟩ := appendAll_new table_empty (List.nil_append ps ▸ hps)
    obtain ⟨hcircular, hpath⟩ := append_again htable he
    simp only [appendAll_append]
    rw [List.dropLast_concat]
    constructor
    · rintro ⟨l, hends, hhandle⟩
      have hrest := (ends_appendAll_cons htable).1 ((Ends.bind_iff hends₁).1 hends)
      obtain rfl := hrest.unique (Ends.pure _)
      refine ⟨hps, fun cmd => ?_⟩
      by_contra hnone
      refine (hhandle cmd).not_never (handle_circular entry hcircular fun a ha hcmd => ?_)
      exact hnone ⟨a, List.mem_append_left _ ha, hcmd⟩
    · rintro ⟨-, hall⟩
      have hlast : Ends (fun fuel => appendAll fuel [e] l₁) _ :=
        (ends_appendAll_cons htable).2 (Ends.pure _)
      refine ⟨_, (Ends.bind_iff hends₁).2 hlast, fun cmd => ?_⟩
      obtain ⟨a, ha, hcmd⟩ := hall cmd
      have hmem : a ∈ ps := by
        rcases List.mem_append.1 ha with ha | ha
        · exact ha
        · exact List.mem_singleton.1 ha ▸ he
      have hsome : (ps.find? fun a => (entry a).cmd = cmd).isSome :=
        List.find?_isSome.2 ⟨a, hmem, decide_eq_true hcmd⟩
      obtain ⟨b, hb⟩ := Option.isSome_iff_exists.1 hsome
      rw [List.find?_append, hb]
      exact handle_found entry hpath hb

end

/-! ## The commands of the repository -/

/-- `enum cmd` -/
def GPIO_HIGH : BitVec 32 := 1
def GPIO_LOW : BitVec 32 := 2
def LCD_ON : BitVec 32 := 3
def LCD_OFF : BitVec 32 := 4

inductive Handler where
  | gpio_high | gpio_low | lcd_on | lcd_off

/-- `gpioCmd` at the entries 0 and 1, `lcdCmd` behind it. -/
def commands : ℕ → StCmd Handler
  | 0 => ⟨GPIO_HIGH, .gpio_high⟩
  | 1 => ⟨GPIO_LOW, .gpio_low⟩
  | 2 => ⟨LCD_ON, .lcd_on⟩
  | _ => ⟨LCD_OFF, .lcd_off⟩

/-- The call of `init_gpio`. -/
def initGpio : ℕ × ℤ := (0, 2)

/-- The call of `init_lcd`. -/
def initLcd : ℕ × ℤ := (2, 2)

example : (registerAll 5 [initGpio, initLcd] emptyTable).bind (fun l => handleCmd commands 5 l LCD_ON) =
    some (some .lcd_on, 0) := rfl

/-- A second `init_gpio` does not return. -/
theorem initGpio_again : ¬ Works commands [initGpio, initLcd, initGpio] := by
  rintro ⟨l, hends, -⟩
  simp only [registerAll_eq] at hends
  have hstuck : ¬ Ends (fun fuel => appendAll fuel ([0, 1, 2, 3] ++ 0 :: 1 :: []) emptyTable) l :=
    appendAll_stuck (by decide) (by decide) l
  exact hstuck hends

end Cmd
