import JobTrace.Files.Basic
import JobTrace.Proofs.Text.Separator

/-!
# Following paths in a tree that changes

Files come and go, but as long as no directory does, a path leads where it led before: following
it looks at directories only.  `SameDirectories` is therefore the one thing about a change that
every path has in common, and `Apart` need be assumed of two paths only once.

The places that paths lead to have names without slashes, so they are told apart by their keys.
And a path whose spelling asks for a directory leads to one, or nowhere.
-/

namespace JobTrace

namespace Place

def Proper (l : Place) : Prop := ∀ name ∈ l.names, '/' ∉ name.toList

theorem proper_root : root.Proper := fun _ h => absurd h List.not_mem_nil

theorem proper_enter {l : Place} (h : l.Proper) {name : String} (hname : '/' ∉ name.toList) :
    (l.enter name).Proper := by
  intro n hn
  rcases List.mem_cons.1 hn with rfl | hn
  · exact hname
  · exact h n hn

theorem proper_parent {l : Place} (h : l.Proper) : l.parent.Proper :=
  fun n hn => h n (List.mem_of_mem_tail hn)

theorem spell_ne_empty (name : String) (names : List String) : spell (name :: names) ≠ "" := by
  intro h
  have hlist := congrArg String.toList h
  simp [spell] at hlist

theorem spell_injective : ∀ {names names' : List String},
    (∀ n ∈ names, '/' ∉ n.toList) → (∀ n ∈ names', '/' ∉ n.toList) →
      spell names = spell names' → names = names'
  | [], [], _, _, _ => rfl
  | [], name :: names, _, _, h => absurd h.symm (spell_ne_empty name names)
  | name :: names, [], _, _, h => absurd h (spell_ne_empty name names)
  | name :: names, name' :: names', hs, hs', h => by
    have hlist : (spell names).toList ++ '/' :: name.toList =
        (spell names').toList ++ '/' :: name'.toList := by
      simpa [spell] using congrArg String.toList h
    obtain ⟨hfront, hname⟩ := append_sep_inj (hs name (List.mem_cons_self ..))
      (hs' name' (List.mem_cons_self ..)) hlist
    have hnames := spell_injective (fun n hn => hs n (List.mem_cons_of_mem _ hn))
      (fun n hn => hs' n (List.mem_cons_of_mem _ hn)) (String.toList_injective hfront)
    rw [String.toList_injective hname, hnames]

theorem key_injective {l l' : Place} (hl : l.Proper) (hl' : l'.Proper) (h : l.key = l'.key) :
    l = l' :=
  Place.ext (spell_injective hl hl' h)

end Place

namespace Path

theorem endsInDirectory_iff {p : Path} : p.endsInDirectory = true ↔
    ∀ s, p.segments.getLast? = some s → counts s = false ∨ s = ['.', '.'] := by
  unfold endsInDirectory
  cases p.segments.getLast? with
  | none => simp
  | some s =>
    simp only [decide_eq_true_eq, Option.some.injEq, forall_eq', counts]
    by_cases hempty : s = []
    · simp [hempty]
    · by_cases hdot : s = ['.']
      · simp [hdot]
      · simp [hempty, hdot]

theorem slash_not_mem_of_mem_segments {p : Path} {s : List Char} (h : s ∈ p.segments) :
    '/' ∉ s :=
  slash_not_mem_of_mem_splitSlash h

theorem exists_getLast?_segments (p : Path) : ∃ s, p.segments.getLast? = some s := by
  cases h : p.segments.getLast? with
  | none => exact absurd (List.getLast?_eq_none_iff.1 h) (splitSlash_ne_nil _)
  | some s => exact ⟨s, rfl⟩

end Path

namespace Files

/-! ### One segment -/

theorem step_ok_iff {fs : Files} {l l' : Place} {s : List Char} :
    fs.step l s = .ok l' ↔ fs.node? l = some .directory ∧
      ((Path.counts s = false ∧ l' = l) ∨ (s = ['.', '.'] ∧ l' = l.parent) ∨
        (Path.counts s = true ∧ s ≠ ['.', '.'] ∧
          (String.ofList s).utf8ByteSize ≤ nameLimit ∧ l' = l.enter (String.ofList s))) := by
  unfold step
  cases hnode : fs.node? l with
  | none => simp
  | some node =>
    cases node with
    | file bytes => simp
    | directory =>
      by_cases hcounts : Path.counts s = true
      · by_cases hup : s = ['.', '.']
        · subst hup
          simp [hcounts, eq_comm]
        · by_cases hlong : nameLimit < (String.ofList s).utf8ByteSize
          · simp [hcounts, hup, hlong, Nat.not_le.2 hlong]
          · simp [hcounts, hup, hlong, Nat.not_lt.1 hlong, eq_comm]
      · have hup : s ≠ ['.', '.'] := by
          rintro rfl
          exact hcounts rfl
        simp [hcounts, hup, eq_comm]

/-! ### All segments -/

theorem walk_cons_ok_iff {fs : Files} {l l' : Place} {s : List Char} {ss : List (List Char)} :
    fs.walk l (s :: ss) = .ok l' ↔ ∃ next, fs.step l s = .ok next ∧ fs.walk next ss = .ok l' := by
  simp only [walk]
  cases fs.step l s with
  | error e => simp
  | ok next => simp

theorem proper_of_walk_ok {fs : Files} {l l' : Place} {ss : List (List Char)}
    (hss : ∀ s ∈ ss, '/' ∉ s) (hl : l.Proper) (h : fs.walk l ss = .ok l') : l'.Proper := by
  induction ss generalizing l with
  | nil =>
    obtain rfl : l = l' := by simpa [walk] using h
    exact hl
  | cons s ss ih =>
    obtain ⟨next, hstep, hwalk⟩ := walk_cons_ok_iff.1 h
    refine ih (fun s' hs' => hss s' (List.mem_cons_of_mem _ hs')) ?_ hwalk
    obtain ⟨-, ⟨-, rfl⟩ | ⟨-, rfl⟩ | ⟨-, -, -, rfl⟩⟩ := step_ok_iff.1 hstep
    · exact hl
    · exact Place.proper_parent hl
    · refine Place.proper_enter hl ?_
      rw [String.toList_ofList]
      exact hss s (List.mem_cons_self ..)

/-- The last segment of a path is taken from the place where the others lead. -/
theorem exists_last_step {fs : Files} {l l' : Place} {ss : List (List Char)} {s : List Char}
    (hlast : ss.getLast? = some s) (h : fs.walk l ss = .ok l') :
    ∃ before, fs.walk l ss.dropLast = .ok before ∧ fs.step before s = .ok l' := by
  obtain ⟨front, rfl⟩ := List.getLast?_eq_some_iff.1 hlast
  rw [walk_append] at h
  rw [List.dropLast_concat]
  cases hfront : fs.walk l front with
  | error e =>
    rw [hfront] at h
    exact absurd h (by simp)
  | ok before =>
    rw [hfront] at h
    obtain ⟨next, hstep, hwalk⟩ := walk_cons_ok_iff.1 h
    obtain rfl : next = l' := by simpa [walk] using hwalk
    exact ⟨before, rfl, hstep⟩

theorem locate_ok_iff {fs : Files} {p : Path} {l : Place} :
    fs.locate p = .ok l ↔ p.fault? = none ∧ fs.walk .root p.segments = .ok l := by
  unfold locate
  cases p.fault? <;> simp

theorem placeFor_ok_iff {fs : Files} {p : Path} {l : Place} :
    fs.placeFor p = .ok l ↔ p.endsInDirectory = false ∧ fs.locate p = .ok l := by
  unfold placeFor
  cases hends : p.endsInDirectory with
  | false => simp
  | true =>
    cases p.fault? with
    | some e => simp
    | none =>
      cases fs.walk .root (p.frontSegments ++ [[]]) <;> simp

theorem proper_of_locate_ok {fs : Files} {p : Path} {l : Place} (h : fs.locate p = .ok l) :
    l.Proper :=
  proper_of_walk_ok (fun _ => Path.slash_not_mem_of_mem_segments) Place.proper_root
    (locate_ok_iff.1 h).2

/-! ### Changes that leave the directories alone -/

def SameDirectories (fs fs' : Files) : Prop :=
  ∀ l, fs.node? l = some .directory ↔ fs'.node? l = some .directory

namespace SameDirectories

theorem refl (fs : Files) : SameDirectories fs fs := fun _ => Iff.rfl

theorem symm {fs fs' : Files} (h : SameDirectories fs fs') : SameDirectories fs' fs :=
  fun l => (h l).symm

theorem trans {fs fs' fs'' : Files} (h : SameDirectories fs fs')
    (h' : SameDirectories fs' fs'') : SameDirectories fs fs'' :=
  fun l => (h l).trans (h' l)

variable {fs fs' : Files}

theorem walk_ok (h : SameDirectories fs fs') {l l' : Place} {ss : List (List Char)}
    (hwalk : fs.walk l ss = .ok l') : fs'.walk l ss = .ok l' := by
  induction ss generalizing l with
  | nil => simpa [walk] using hwalk
  | cons s ss ih =>
    obtain ⟨next, hstep, hwalk⟩ := walk_cons_ok_iff.1 hwalk
    obtain ⟨hdir, hcases⟩ := step_ok_iff.1 hstep
    exact walk_cons_ok_iff.2 ⟨next, step_ok_iff.2 ⟨(h l).1 hdir, hcases⟩, ih hwalk⟩

theorem locate_ok_iff (h : SameDirectories fs fs') {p : Path} {l : Place} :
    fs.locate p = .ok l ↔ fs'.locate p = .ok l := by
  rw [Files.locate_ok_iff, Files.locate_ok_iff]
  exact and_congr_right fun _ => ⟨h.walk_ok, h.symm.walk_ok⟩

end SameDirectories

/-- Two paths that do not lead to one place. -/
def Apart (fs : Files) (p q : Path) : Prop :=
  ∀ l, fs.locate p = .ok l → fs.locate q ≠ .ok l

theorem Apart.symm {fs : Files} {p q : Path} (h : fs.Apart p q) : fs.Apart q p :=
  fun l hq hp => h l hp hq

theorem SameDirectories.apart {fs fs' : Files} (hsame : SameDirectories fs fs') {p q : Path}
    (h : fs.Apart p q) : fs'.Apart p q :=
  fun l hp hq => h l (hsame.locate_ok_iff.2 hp) (hsame.locate_ok_iff.2 hq)

/-! ### Paths that end in a directory -/

/-- Every place around is a directory. -/
def Grounded (fs : Files) : List String → Prop
  | [] => True
  | _ :: names => fs.node? ⟨names⟩ = some .directory ∧ Grounded fs names

theorem grounded_of_walk_ok {fs : Files} {l l' : Place} {ss : List (List Char)}
    (hl : fs.Grounded l.names) (h : fs.walk l ss = .ok l') : fs.Grounded l'.names := by
  induction ss generalizing l with
  | nil =>
    obtain rfl : l = l' := by simpa [walk] using h
    exact hl
  | cons s ss ih =>
    obtain ⟨next, hstep, hwalk⟩ := walk_cons_ok_iff.1 h
    refine ih ?_ hwalk
    obtain ⟨hdir, ⟨-, rfl⟩ | ⟨-, rfl⟩ | ⟨-, -, -, rfl⟩⟩ := step_ok_iff.1 hstep
    · exact hl
    · obtain ⟨names⟩ := l
      cases names with
      | nil => trivial
      | cons name names => exact hl.2
    · exact ⟨hdir, hl⟩

theorem node?_parent {fs : Files} {l : Place} (hl : fs.Grounded l.names)
    (hdir : fs.node? l = some .directory) : fs.node? l.parent = some .directory := by
  obtain ⟨names⟩ := l
  cases names with
  | nil => exact hdir
  | cons name names => exact hl.1

/-- A path whose spelling asks for a directory leads to a directory. -/
theorem node?_of_endsInDirectory {fs : Files} {p : Path} {l : Place}
    (hends : p.endsInDirectory = true) (h : fs.locate p = .ok l) :
    fs.node? l = some .directory := by
  obtain ⟨s, hlast⟩ := p.exists_getLast?_segments
  obtain ⟨before, hbefore, hstep⟩ := exists_last_step hlast (locate_ok_iff.1 h).2
  have hgrounded : fs.Grounded before.names :=
    grounded_of_walk_ok (l := .root) trivial hbefore
  obtain ⟨hdir, ⟨-, rfl⟩ | ⟨-, rfl⟩ | ⟨hcounts, hup, -, -⟩⟩ := step_ok_iff.1 hstep
  · exact hdir
  · exact node?_parent hgrounded hdir
  · rcases Path.endsInDirectory_iff.1 hends s hlast with hno | hdots
    · rw [hno] at hcounts
      exact absurd hcounts (by decide)
    · exact absurd hdots hup

end Files

end JobTrace
