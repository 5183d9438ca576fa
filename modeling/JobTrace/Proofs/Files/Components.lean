import JobTrace.Proofs.Files.Saving

/-!
# Where a snapshot is kept

The snapshot is kept in a directory under a fixed name, whatever the spelling of that directory.
A directory that is given is joined with the name as a text; the directory of the executable is
found by components first.  In both cases the components of the result are those of the directory
and the name behind them.

The two views meet in one law (`componentsOf_append_slash`): a slash behind a text that is not empty
ends a segment, and what follows adds components of its own and changes none.  Joining with a name
is that law read forwards.  Taking the parent is the same law read backwards, because a path is the
text of its parent, a slash, and segments of which only one counts.
-/

namespace JobTrace

namespace Path

/-! ### Components of a text -/

/-- The component that the start of a path is, if it is one. -/
def Start.component : Start → List (List Char)
  | .bare => []
  | start => [start.text]

/-- The components of a path that is spelt so. -/
def componentsOf (cs : List Char) : List (List Char) :=
  (splitStart cs).1.component ++ (splitSlash cs).filter counts

/-- What the start of a path is spelt with does not count as a segment. -/
theorem filter_splitSlash_splitStart (cs : List Char) :
    (splitSlash (splitStart cs).2).filter counts = (splitSlash cs).filter counts := by
  unfold splitStart
  split
  · simp [splitSlash, counts]
  · decide
  · simp [splitSlash, counts]
  · rfl

theorem components_eq (p : Path) : p.components = componentsOf p.text.toList := by
  unfold components componentsOf segments start
  rw [filter_splitSlash_splitStart]
  cases (splitStart p.text.toList).1 <;> rfl

/-- Behind a slash further components follow, and those in front of it stay. -/
theorem componentsOf_append_slash {cs : List Char} (h : cs ≠ []) (rest : List Char) :
    componentsOf (cs ++ '/' :: rest) = componentsOf cs ++ (splitSlash rest).filter counts := by
  unfold componentsOf
  rw [splitStart_append_slash h, splitSlash_append_slash, List.filter_append, List.append_assoc]

theorem componentsOf_slash (rest : List Char) :
    componentsOf ('/' :: rest) = Start.root.text :: (splitSlash rest).filter counts := by
  simp [componentsOf, splitStart, Start.component, splitSlash, counts]

/-- Slashes at the end of a path do not count. -/
theorem componentsOf_append_slashes {cs : List Char} (h : cs ≠ []) (n : Nat) :
    componentsOf (cs ++ List.replicate n '/') = componentsOf cs := by
  induction n with
  | zero => rw [List.replicate_zero, List.append_nil]
  | succ n ih =>
    have hne : cs ++ List.replicate n '/' ≠ [] := by simp [h]
    rw [List.replicate_succ', ← List.append_assoc, componentsOf_append_slash hne, ih]
    simp [splitSlash, counts]

/-! ### Joining with a name -/

/-- A path joined with a name has the name for one more component. -/
theorem components_join {name : String} (hslash : '/' ∉ name.toList)
    (hcounts : counts name.toList = true) (p : Path) :
    (p.join name).components = p.components ++ [name.toList] := by
  have hname : (splitSlash name.toList).filter counts = [name.toList] := by
    rw [splitSlash_of_not_mem hslash]
    simp [hcounts]
  have hdot : name.toList ≠ ['.'] := by
    intro h
    rw [h] at hcounts
    exact absurd hcounts (by decide)
  rw [components_eq, components_eq]
  unfold join
  split
  · next hempty =>
    rw [hempty]
    show componentsOf name.toList = componentsOf [] ++ [name.toList]
    rw [componentsOf, splitStart_of_name hslash hdot, hname]
    rfl
  · next hempty =>
    have hne : p.text.toList ≠ [] := by simpa using hempty
    split
    · next hend =>
      obtain ⟨cs, hcs⟩ := List.getLast?_eq_some_iff.1 hend
      have htext : (p.text ++ name).toList = cs ++ '/' :: name.toList := by simp [hcs]
      rw [htext, hcs]
      -- The slash at the end may be the root.
      cases cs with
      | nil =>
        rw [List.nil_append, List.nil_append, componentsOf_slash, componentsOf_slash, hname]
        rfl
      | cons c cs =>
        rw [componentsOf_append_slash (List.cons_ne_nil c cs),
          componentsOf_append_slash (List.cons_ne_nil c cs), hname]
        simp [splitSlash, counts]
    · have htext : (p.text ++ "/" ++ name).toList = p.text.toList ++ '/' :: name.toList := by simp
      rw [htext, componentsOf_append_slash hne, hname]

/-! ### Parents -/

theorem joinSlash_splitSlash (cs : List Char) : joinSlash (splitSlash cs) = cs := by
  induction cs with
  | nil => rfl
  | cons c cs ih =>
    unfold splitSlash
    cases hs : splitSlash cs with
    | nil => exact absurd hs (splitSlash_ne_nil cs)
    | cons s ss =>
      rw [hs] at ih
      by_cases hc : c = '/'
      · rw [if_pos hc, joinSlash, ih, hc, List.nil_append]
        exact List.cons_ne_nil s ss
      · rw [if_neg hc]
        cases ss with
        | nil => exact congrArg (c :: ·) ih
        | cons s' ss => exact congrArg (c :: ·) ih

theorem joinSlash_append {ss ss' : List (List Char)} (h : ss ≠ []) (h' : ss' ≠ []) :
    joinSlash (ss ++ ss') = joinSlash ss ++ '/' :: joinSlash ss' := by
  induction ss with
  | nil => exact absurd rfl h
  | cons s ss ih =>
    cases ss with
    | nil =>
      cases ss' with
      | nil => exact absurd rfl h'
      | cons s' ss' => rfl
    | cons t ss =>
      have hrest := ih (List.cons_ne_nil t ss)
      show s ++ '/' :: joinSlash (t :: ss ++ ss') = s ++ '/' :: joinSlash (t :: ss) ++ _
      rw [hrest, List.append_assoc, List.cons_append]

theorem splitSlash_joinSlash {ss : List (List Char)} (hne : ss ≠ []) (h : ∀ s ∈ ss, '/' ∉ s) :
    splitSlash (joinSlash ss) = ss := by
  induction ss with
  | nil => exact absurd rfl hne
  | cons s ss ih =>
    have hs : '/' ∉ s := h s (List.mem_cons_self ..)
    cases ss with
    | nil => exact splitSlash_of_not_mem hs
    | cons t ss =>
      have hrest := ih (List.cons_ne_nil t ss) fun u hu => h u (List.mem_cons_of_mem _ hu)
      rw [joinSlash, splitSlash_append_slash, hrest, splitSlash_of_not_mem hs]
      · rfl
      · exact List.cons_ne_nil t ss

/-- A path is spelt by its start and its segments. -/
theorem toList_text_eq (p : Path) : p.text.toList = p.start.text ++ joinSlash p.segments := by
  unfold start segments
  rw [joinSlash_splitSlash]
  unfold splitStart
  split
  · next h => exact h
  · next h => exact h
  · next h => exact h
  · rfl

/-- Behind the segments that are kept there is none that counts. -/
theorem exists_eq_trimSegments_append (ss : List (List Char)) :
    ∃ rest, ss = trimSegments ss ++ rest ∧ rest.filter counts = [] := by
  refine ⟨(ss.reverse.takeWhile fun s => !counts s).reverse, ?_, ?_⟩
  · unfold trimSegments
    rw [← List.reverse_append, List.takeWhile_append_dropWhile, List.reverse_reverse]
  · rw [List.filter_eq_nil_iff]
    intro s hs
    have huncounted := List.all_eq_true.1 List.all_takeWhile s (List.mem_reverse.1 hs)
    simpa using huncounted

theorem counts_of_trimSegments_eq {ss front : List (List Char)} {s : List Char}
    (h : trimSegments ss = front ++ [s]) : counts s = true := by
  unfold trimSegments at h
  have hdrop : (ss.reverse.dropWhile fun s => !counts s) = s :: front.reverse := by
    rw [← List.reverse_reverse (ss.reverse.dropWhile _), h, List.reverse_append]
    rfl
  have hhead := List.head?_dropWhile_not (fun s => !counts s) ss.reverse
  rw [hdrop] at hhead
  simpa using hhead

theorem components_eq_filter (p : Path) :
    p.components = p.start.component ++ p.segments.filter counts := by
  unfold components
  cases p.start <;> rfl

/-- A path that goes on behind the segments of another one has its components and more. -/
theorem components_of_segments_eq {p : Path} {ss rest : List (List Char)}
    (h : p.segments = ss ++ rest) :
    p.components = (ofSegments p.start ss).components ++ rest.filter counts := by
  have hslash : ∀ s ∈ rest, '/' ∉ s := fun s hs =>
    slash_not_mem_of_mem_segments (p := p) (h ▸ List.mem_append_right ss hs)
  by_cases hrest : rest = []
  · subst hrest
    rw [List.append_nil] at h
    rw [List.filter_nil, List.append_nil, ← h]
    have hp : ofSegments p.start p.segments = p :=
      Path.ext (String.toList_injective (by rw [toList_text_eq p]; simp [ofSegments]))
    rw [hp]
  by_cases hss : ss = []
  · subst hss
    rw [components_eq_filter, h]
    cases p.start <;> rfl
  · have htext : p.text.toList = (p.start.text ++ joinSlash ss) ++ '/' :: joinSlash rest := by
      rw [toList_text_eq, h, joinSlash_append hss hrest, List.append_assoc]
    -- Without a text in front of the slash this would be the root, which has one.
    have hne : p.start.text ++ joinSlash ss ≠ [] := by
      intro hempty
      rw [hempty, List.nil_append] at htext
      have hroot : p.start = .root := by
        unfold start
        rw [htext]
        rfl
      rw [hroot] at hempty
      exact absurd hempty (List.cons_ne_nil _ _)
    rw [components_eq, htext, componentsOf_append_slash hne, splitSlash_joinSlash hrest hslash,
      components_eq, ofSegments, String.toList_ofList]

/-- The parent of a path has all of its components but the last one; a path without a parent has
    at most one component. -/
theorem components_parent (p : Path) :
    (p.parent?.map components).getD [] = p.components.dropLast := by
  obtain ⟨rest, hsegments, hrest⟩ := exists_eq_trimSegments_append p.segments
  cases htrim : (trimSegments p.segments).reverse with
  | nil =>
    have hnone : p.segments.filter counts = [] := by
      rw [hsegments, List.reverse_eq_nil_iff.1 htrim, List.nil_append, hrest]
    rw [components_eq_filter, hnone, List.append_nil]
    unfold parent?
    rw [htrim]
    cases p.start <;> rfl
  | cons s front =>
    have hfront : trimSegments p.segments = front.reverse ++ [s] := by
      rw [← List.reverse_reverse (trimSegments p.segments), htrim, List.reverse_cons]
    obtain ⟨gap, hkept, hgap⟩ := exists_eq_trimSegments_append front.reverse
    have hparent : p.parent? = some (ofSegments p.start (trimSegments front.reverse)) := by
      unfold parent?
      rw [htrim]
    have hall : p.segments = trimSegments front.reverse ++ (gap ++ s :: rest) := by
      calc p.segments = front.reverse ++ [s] ++ rest := by rw [← hfront]; exact hsegments
        _ = trimSegments front.reverse ++ gap ++ [s] ++ rest := by rw [← hkept]
        _ = trimSegments front.reverse ++ (gap ++ s :: rest) := by simp only [List.append_assoc,
            List.singleton_append]
    -- Of the segments behind those of the parent only `s` counts.
    have hlast : (gap ++ s :: rest).filter counts = [s] := by
      rw [List.filter_append, hgap, List.filter_cons_of_pos (counts_of_trimSegments_eq hfront),
        hrest, List.nil_append]
    rw [hparent, components_of_segments_eq hall, hlast, List.dropLast_concat]
    rfl

end Path

/-! ### The path of the snapshot -/

theorem components_join_snapshotFileName (p : Path) :
    (p.join snapshotFileName).components = p.components ++ [snapshotFileName.toList] :=
  Path.components_join (by decide) (by decide) p

theorem components_snapshotPath_some {directory : String} (h : directory ≠ "")
    (executable : Option Path) : (snapshotPath (some directory) executable).components =
      (⟨directory⟩ : Path).components ++ [snapshotFileName.toList] := by
  have hgiven : (some directory).filter (· ≠ "") = some directory := by simp [Option.filter, h]
  unfold snapshotPath
  rw [hgiven]
  exact components_join_snapshotFileName ⟨directory⟩

theorem components_snapshotPath_none {directory : Option String}
    (h : directory = none ∨ directory = some "") (executable : Option Path) :
    (snapshotPath directory executable).components =
      ((executable.bind Path.parent?).map Path.components).getD [] ++
        [snapshotFileName.toList] := by
  have habsent : directory.filter (· ≠ "") = none := by
    rcases h with rfl | rfl <;> rfl
  unfold snapshotPath
  rw [habsent]
  cases executable.bind Path.parent? with
  | none => exact components_join_snapshotFileName ⟨""⟩
  | some dir => exact components_join_snapshotFileName dir

/-- The snapshot is kept in the directory that is given, under its fixed name.  Slashes at the end
    of that directory do not count, and neither does the executable.  If no directory is given, or
    the empty text, the snapshot is kept where the executable is: its path has the components of
    the executable with the name in place of the last one.  Nothing but the name is left where the
    executable is unknown, or its path is empty or the root. -/
theorem components_snapshotPath :
    (∀ (directory : String) (executable : Option Path), directory ≠ "" →
      (snapshotPath (some directory) executable).components =
        (⟨directory⟩ : Path).components ++ [snapshotFileName.toList] ∧
      ∀ n, (snapshotPath (some (directory ++ String.ofList (List.replicate n '/')))
        executable).components = (snapshotPath (some directory) executable).components) ∧
    ∀ directory : Option String, directory = none ∨ directory = some "" →
      (∀ executable : Path, (snapshotPath directory (some executable)).components =
        executable.components.dropLast ++ [snapshotFileName.toList]) ∧
      (snapshotPath directory none).components = [snapshotFileName.toList] ∧
      ∀ executable : Path, executable.text = "" ∨ executable.components = [Path.Start.root.text] →
        (snapshotPath directory (some executable)).components = [snapshotFileName.toList] := by
  constructor
  · intro directory executable hne
    refine ⟨components_snapshotPath_some hne executable, ?_⟩
    intro n
    have hlist : directory.toList ≠ [] := by simpa using hne
    have hne' : directory ++ String.ofList (List.replicate n '/') ≠ "" := by simp [hne]
    rw [components_snapshotPath_some hne', components_snapshotPath_some hne, Path.components_eq,
      Path.components_eq, String.toList_append, String.toList_ofList,
      Path.componentsOf_append_slashes hlist]
  · intro directory hdirectory
    have hbeside : ∀ executable : Path, (snapshotPath directory (some executable)).components =
        executable.components.dropLast ++ [snapshotFileName.toList] := by
      intro executable
      rw [components_snapshotPath_none hdirectory, Option.bind_some, Path.components_parent]
    refine ⟨hbeside, components_snapshotPath_none hdirectory none, ?_⟩
    rintro ⟨text⟩ (rfl | hroot)
    · exact hbeside ⟨""⟩
    · rw [hbeside, hroot]
      rfl

/-- A directory with slashes at its end, and executables that are spelt in roundabout ways. -/
theorem components_snapshotPath_roundabout :
    (snapshotPath (some "./a//") (some ⟨"/b/c"⟩)).components =
      [['.'], ['a'], snapshotFileName.toList] ∧
    (snapshotPath (some "") (some ⟨"//b/./..//c/."⟩)).components =
      [['/'], ['b'], ['.', '.'], snapshotFileName.toList] ∧
    (snapshotPath none (some ⟨"//."⟩)).components = [snapshotFileName.toList] := by
  obtain ⟨hgiven, habsent⟩ := components_snapshotPath
  refine ⟨?_, ?_, ?_⟩
  · obtain ⟨hdirectory, hslashes⟩ := hgiven "./a" (some ⟨"/b/c"⟩) (by decide)
    exact (hslashes 2).trans hdirectory
  · exact (habsent (some "") (Or.inr rfl)).1 ⟨"//b/./..//c/."⟩
  · exact (habsent none (Or.inl rfl)).2.2 ⟨"//."⟩ (Or.inr (by decide))

end JobTrace
