import JobTrace.Proofs.Files.Changing
import JobTrace.Proofs.Store.Encoding

/-!
# Saving a snapshot beside its place

A snapshot is written at the temporary path and moved from there.  The temporary path never leads
to the place that it serves, whatever the spelling of the path: it ends in another name.  So what
is found at the path is untouched by every write beside it, and changes with the renaming alone.
Whether that succeeds depends on the directories only, so trees with the same directories save
alike.
-/

namespace JobTrace

namespace Path

/-! ### The last segment of a temporary path -/

/-- What stands behind the last slash is the last segment. -/
theorem splitSlash_splitStart_append {name : List Char} (h : '/' ∉ name) (cs : List Char) :
    ∃ front, splitSlash (splitStart (cs ++ '/' :: name)).2 = front ++ [name] := by
  by_cases hcs : cs = []
  · subst hcs
    exact ⟨[], by simp [splitStart, splitSlash_of_not_mem h]⟩
  · refine ⟨splitSlash (splitStart cs).2, ?_⟩
    rw [splitStart_append_slash hcs, splitSlash_append_slash, splitSlash_of_not_mem h]

theorem splitStart_of_name {name : List Char} (h : '/' ∉ name) (hdot : name ≠ ['.']) :
    splitStart name = (.bare, name) := by
  unfold splitStart
  split
  · exact absurd (List.mem_cons_self ..) h
  · exact absurd rfl hdot
  · exact absurd (List.mem_cons_of_mem _ (List.mem_cons_self ..)) h
  · rfl

theorem getLast?_segments_join {name : String} (h : '/' ∉ name.toList)
    (hdot : name.toList ≠ ['.']) (p : Path) :
    (p.join name).segments.getLast? = some name.toList := by
  unfold join segments
  split
  · simp [splitStart_of_name h hdot, splitSlash_of_not_mem h]
  · split
    · next hslash =>
      obtain ⟨cs, hcs⟩ := List.getLast?_eq_some_iff.1 hslash
      obtain ⟨front, hfront⟩ := splitSlash_splitStart_append h cs
      simp [hcs, hfront]
    · obtain ⟨front, hfront⟩ := splitSlash_splitStart_append h p.text.toList
      simp [hfront]

theorem trimSegments_of_counts {ss : List (List Char)} {s : List Char}
    (hlast : ss.getLast? = some s) (hcounts : counts s = true) : trimSegments ss = ss := by
  obtain ⟨front, rfl⟩ := List.getLast?_eq_some_iff.1 hlast
  simp [trimSegments, hcounts]

/-- A path that may name a file has a name for its last segment. -/
theorem exists_name {p : Path} (h : p.endsInDirectory = false) :
    ∃ s, p.segments.getLast? = some s ∧ counts s = true ∧ s ≠ ['.', '.'] := by
  obtain ⟨s, hlast⟩ := p.exists_getLast?_segments
  have hname : ¬ (counts s = false ∨ s = ['.', '.']) := by
    intro hs
    have hends : p.endsInDirectory = true := endsInDirectory_iff.2 fun s' hs' => by
      obtain rfl : s = s' := Option.some.inj (hlast.symm.trans hs')
      exact hs
    rw [h] at hends
    exact absurd hends (by decide)
  rw [not_or, Bool.not_eq_false] at hname
  exact ⟨s, hlast, hname⟩

theorem append_tmp_ne (s : List Char) {t : List Char} (ht : t.length < 4) :
    s ++ ".tmp".toList ≠ t := by
  rintro rfl
  rw [List.length_append] at ht
  exact absurd ht (Nat.not_lt.2 (Nat.le_add_left 4 s.length))

theorem getLast?_segments_temporary {p : Path} {s : List Char}
    (hlast : p.segments.getLast? = some s) (hcounts : counts s = true) (hup : s ≠ ['.', '.']) :
    p.temporary.segments.getLast? = some (s ++ ".tmp".toList) := by
  obtain ⟨front, hfront⟩ := List.getLast?_eq_some_iff.1 hlast
  have htrim : trimSegments p.segments = front ++ [s] :=
    (trimSegments_of_counts hlast hcounts).trans hfront
  have hname : p.fileName? = some (String.ofList s) := by
    simp [fileName?, htrim, hup]
  obtain ⟨dir, hdir⟩ : ∃ dir, p.parent? = some dir := by
    simp [parent?, htrim]
  have hslash : '/' ∉ (String.ofList s ++ ".tmp").toList := by
    have hs : '/' ∉ s :=
      slash_not_mem_of_mem_segments (p := p) (hfront ▸ List.mem_append_right _ (by simp))
    simpa using hs
  have htemporary : p.temporary = dir.join (String.ofList s ++ ".tmp") := by
    simp [temporary, withFileName, hname, hdir]
  have hdot : (String.ofList s ++ ".tmp").toList ≠ ['.'] := by
    simpa using append_tmp_ne s (t := ['.']) (by decide)
  rw [htemporary, getLast?_segments_join hslash hdot]
  simp

theorem endsInDirectory_temporary {p : Path} (h : p.endsInDirectory = false) :
    p.temporary.endsInDirectory = false := by
  obtain ⟨s, hlast, hcounts, hup⟩ := exists_name h
  have hempty : s ++ ".tmp".toList ≠ [] := append_tmp_ne s (by decide)
  have hdot : s ++ ".tmp".toList ≠ ['.'] := append_tmp_ne s (by decide)
  have hdots : s ++ ".tmp".toList ≠ ['.', '.'] := append_tmp_ne s (by decide)
  simp only [endsInDirectory, getLast?_segments_temporary hlast hcounts hup, hempty, hdot, hdots,
    or_self, decide_false]

end Path

namespace Files

variable {fs fs' : Files} {p : Path}

theorem locate_name {l : Place} {s : List Char} (hlast : p.segments.getLast? = some s)
    (hcounts : Path.counts s = true) (hup : s ≠ ['.', '.']) (h : fs.locate p = .ok l) :
    l.names.head? = some (String.ofList s) := by
  obtain ⟨before, -, hstep⟩ := exists_last_step hlast (locate_ok_iff.1 h).2
  obtain ⟨-, ⟨hno, -⟩ | ⟨hdots, -⟩ | ⟨-, -, -, rfl⟩⟩ := step_ok_iff.1 hstep
  · rw [hcounts] at hno
    exact absurd hno (by decide)
  · exact absurd hdots hup
  · rfl

/-- Paths that may name files and end in different names lead to different places. -/
theorem apart_of_name_ne (fs : Files) {q : Path} (hp : p.endsInDirectory = false)
    (hq : q.endsInDirectory = false) (hne : p.segments.getLast? ≠ q.segments.getLast?) :
    fs.Apart p q := by
  obtain ⟨s, hlast, hcounts, hup⟩ := Path.exists_name hp
  obtain ⟨s', hlast', hcounts', hup'⟩ := Path.exists_name hq
  intro l hl hl'
  have hnames := (locate_name hlast hcounts hup hl).symm.trans
    (locate_name hlast' hcounts' hup' hl')
  apply hne
  rw [hlast, hlast', String.ofList_injective (Option.some.inj hnames)]

theorem pairwise_apart_of_names_ne (fs : Files) {paths : List Path}
    (hfiles : ∀ p ∈ paths, p.endsInDirectory = false)
    (hnames : (paths.map fun p => p.segments.getLast?).Nodup) : paths.Pairwise fs.Apart := by
  have hne := List.pairwise_map.1 hnames
  exact hne.imp_of_mem fun hp hq h => apart_of_name_ne fs (hfiles _ hp) (hfiles _ hq) h

/-- The temporary path of a file leads elsewhere. -/
theorem apart_temporary (fs : Files) (h : p.endsInDirectory = false) :
    fs.Apart p.temporary p := by
  refine apart_of_name_ne fs (Path.endsInDirectory_temporary h) h ?_
  obtain ⟨s, hlast, hcounts, hup⟩ := Path.exists_name h
  rw [Path.getLast?_segments_temporary hlast hcounts hup, hlast]
  intro hnames
  have hlength := congrArg (Option.map List.length) hnames
  simp at hlength

/-- Whatever is written beside a path, the path is as it was. -/
theorem find?_of_write_temporary {bytes : ByteArray}
    (h : fs.write p.temporary bytes = .ok fs') : fs'.find? p = fs.find? p := by
  cases hends : p.endsInDirectory with
  | false => exact find?_of_write_apart h (apart_temporary fs hends)
  | true =>
    -- A path that asks for a directory may share its place with the temporary one, but a
    -- directory is not written over.
    have hsame := sameDirectories_of_write h
    refine hsame.find?_eq fun l hl => ?_
    have hdir := node?_of_endsInDirectory hends hl
    rw [hdir, (hsame l).1 hdir]

/-! ### The snapshot as a whole -/

variable {text : String} {e : SnapshotError}

theorem saveSnapshot_ok_iff : fs.saveSnapshot p text = (.ok (), fs') ↔
    ∃ beside, fs.write p.temporary text.toUTF8 = .ok beside ∧
      beside.rename p.temporary p = .ok fs' := by
  unfold saveSnapshot saveVia
  cases fs.write p.temporary text.toUTF8 with
  | error cause => simp
  | ok beside => cases hrename : beside.rename p.temporary p <;> simp [hrename]

/-- Saving fails at the start, or half way, or it does its work. -/
theorem saveSnapshot_cases (fs : Files) (p : Path) (text : String) :
    (∃ cause, fs.saveSnapshot p text = (.error (.io p.temporary cause), fs)) ∨
    (∃ beside cause, fs.write p.temporary text.toUTF8 = .ok beside ∧
      fs.saveSnapshot p text = (.error (.io p cause), beside)) ∨
    ∃ beside fs', fs.write p.temporary text.toUTF8 = .ok beside ∧
      beside.rename p.temporary p = .ok fs' ∧ fs.saveSnapshot p text = (.ok (), fs') := by
  unfold saveSnapshot saveVia
  cases fs.write p.temporary text.toUTF8 with
  | error cause => exact .inl ⟨cause, rfl⟩
  | ok beside =>
    cases hrename : beside.rename p.temporary p with
    | error cause => exact .inr (.inl ⟨beside, cause, rfl, by simp [hrename]⟩)
    | ok fs' => exact .inr (.inr ⟨beside, fs', rfl, hrename, by simp [hrename]⟩)

theorem sameDirectories_saveSnapshot (fs : Files) (p : Path) (text : String) :
    SameDirectories fs (fs.saveSnapshot p text).2 := by
  rcases saveSnapshot_cases fs p text with ⟨cause, hsave⟩ | ⟨beside, cause, hwrite, hsave⟩ |
    ⟨beside, fs', hwrite, hrename, hsave⟩
  · rw [hsave]
    exact .refl fs
  · rw [hsave]
    exact sameDirectories_of_write hwrite
  · rw [hsave]
    exact (sameDirectories_of_write hwrite).trans (sameDirectories_of_rename hrename)

/-- A saved snapshot is what is found at the path from now on. -/
theorem find?_of_saveSnapshot (h : fs.saveSnapshot p text = (.ok (), fs')) :
    fs'.find? p = some (.file text.toUTF8) := by
  obtain ⟨beside, hwrite, hrename⟩ := saveSnapshot_ok_iff.1 h
  exact (find?_of_rename hrename).trans (find?_of_write hwrite)

theorem read_of_saveSnapshot (h : fs.saveSnapshot p text = (.ok (), fs')) :
    fs'.read p = .ok text :=
  read_of_find? (find?_of_saveSnapshot h)

/-- Saving touches two places only, also if it fails half way. -/
theorem find?_saveSnapshot_apart {q : Path} (hp : fs.Apart p q)
    (htemporary : fs.Apart p.temporary q) (text : String) :
    (fs.saveSnapshot p text).2.find? q = fs.find? q := by
  rcases saveSnapshot_cases fs p text with ⟨cause, hsave⟩ | ⟨beside, cause, hwrite, hsave⟩ |
    ⟨beside, fs', hwrite, hrename, hsave⟩
  · rw [hsave]
  · rw [hsave]
    exact find?_of_write_apart hwrite htemporary
  · rw [hsave]
    have hsame := sameDirectories_of_write hwrite
    have hfound := find?_of_rename_apart hrename (hsame.apart htemporary) (hsame.apart hp)
    exact hfound.trans (find?_of_write_apart hwrite htemporary)

/-! ### Paths that can be written -/

/-- A file can be put at the path. -/
def Writable (fs : Files) (p : Path) : Prop :=
  ∃ l, fs.placeFor p = .ok l ∧ fs.node? l ≠ some .directory

theorem SameDirectories.writable (hsame : SameDirectories fs fs') (h : fs.Writable p) :
    fs'.Writable p := by
  obtain ⟨l, hplace, hnode⟩ := h
  obtain ⟨hends, hlocate⟩ := placeFor_ok_iff.1 hplace
  exact ⟨l, placeFor_ok_iff.2 ⟨hends, hsame.locate_ok_iff.1 hlocate⟩,
    fun hdir => hnode ((hsame l).2 hdir)⟩

theorem SameDirectories.writable_iff (hsame : SameDirectories fs fs') (p : Path) :
    fs.Writable p ↔ fs'.Writable p :=
  ⟨hsame.writable, hsame.symm.writable⟩

/-- Where nothing is yet, a file can be put under any name. -/
theorem writable_empty {n : String} (hplace : empty.placeFor p = .ok ⟨[n]⟩) :
    empty.Writable p := by
  refine ⟨⟨[n]⟩, hplace, ?_⟩
  rw [node?, if_neg (by simp [Place.root])]
  simp [empty]

theorem exists_write (h : fs.Writable p) (bytes : ByteArray) :
    ∃ fs', fs.write p bytes = .ok fs' := by
  obtain ⟨l, hplace, hnode⟩ := h
  exact ⟨fs.put l bytes, write_ok_iff.2 ⟨l, hplace, hnode, rfl⟩⟩

theorem exists_rename {q : Path} {bytes : ByteArray} (hp : fs.find? p = some (.file bytes))
    (hq : fs.Writable q) : ∃ fs', fs.rename p q = .ok fs' := by
  obtain ⟨t, hplace, hnode⟩ := hq
  cases hlocate : fs.locate p with
  | error e =>
    rw [find?, hlocate] at hp
    exact absurd hp (by simp)
  | ok l =>
    rw [find?_of_locate hlocate] at hp
    exact ⟨(fs.drop l).put t bytes,
      rename_ok_iff.2 ⟨l, t, bytes, hlocate, hplace, hp, hnode, rfl⟩⟩

theorem exists_saveSnapshot (hp : fs.Writable p) (htemporary : fs.Writable p.temporary)
    (text : String) : ∃ fs', fs.saveSnapshot p text = (.ok (), fs') := by
  obtain ⟨beside, hwrite⟩ := exists_write htemporary text.toUTF8
  obtain ⟨fs', hrename⟩ :=
    exists_rename (find?_of_write hwrite) ((sameDirectories_of_write hwrite).writable hp)
  exact ⟨fs', saveSnapshot_ok_iff.2 ⟨beside, hwrite, hrename⟩⟩

theorem find?_saveSnapshot (hp : fs.Writable p) (htemporary : fs.Writable p.temporary)
    (text : String) : (fs.saveSnapshot p text).2.find? p = some (.file text.toUTF8) := by
  obtain ⟨fs', hsave⟩ := exists_saveSnapshot hp htemporary text
  rw [hsave]
  exact find?_of_saveSnapshot hsave

theorem writable_of_write {bytes : ByteArray} (h : fs.write p bytes = .ok fs') :
    fs.Writable p := by
  obtain ⟨l, hplace, hnode, -⟩ := write_ok_iff.1 h
  exact ⟨l, hplace, hnode⟩

theorem writable_of_rename {q : Path} (h : fs.rename p q = .ok fs') : fs.Writable q := by
  obtain ⟨s, t, bytes, -, hplace, -, hnode, -⟩ := rename_ok_iff.1 h
  exact ⟨t, hplace, hnode⟩

theorem writable_of_saveSnapshot (h : fs.saveSnapshot p text = (.ok (), fs')) :
    fs.Writable p ∧ fs.Writable p.temporary := by
  obtain ⟨beside, hwrite, hrename⟩ := saveSnapshot_ok_iff.1 h
  have hsame := sameDirectories_of_write hwrite
  exact ⟨hsame.symm.writable (writable_of_rename hrename), writable_of_write hwrite⟩

/-- Saving succeeds exactly when files can be put at the path and beside it. -/
theorem exists_saveSnapshot_iff (fs : Files) (p : Path) (text : String) :
    (∃ fs', fs.saveSnapshot p text = (.ok (), fs')) ↔
      fs.Writable p ∧ fs.Writable p.temporary := by
  constructor
  · rintro ⟨fs', hsave⟩
    exact writable_of_saveSnapshot hsave
  · rintro ⟨hp, htemporary⟩
    exact exists_saveSnapshot hp htemporary text

/-- A snapshot that cannot be saved leaves the one that is there. -/
theorem find?_saveSnapshot_of_not_writable (h : ¬ (fs.Writable p ∧ fs.Writable p.temporary))
    (text : String) : (fs.saveSnapshot p text).2.find? p = fs.find? p := by
  rcases saveSnapshot_cases fs p text with ⟨cause, hsave⟩ | ⟨beside, cause, hwrite, hsave⟩ |
    ⟨beside, fs', hwrite, hrename, hsave⟩
  · rw [hsave]
  · rw [hsave]
    exact find?_of_write_temporary hwrite
  · exact absurd (writable_of_saveSnapshot hsave) h

/-- What saving makes of a path depends on what is found there and on the directories. -/
theorem find?_saveSnapshot_congr (hsame : SameDirectories fs fs') (h : fs.find? p = fs'.find? p)
    (text : String) :
    (fs.saveSnapshot p text).2.find? p = (fs'.saveSnapshot p text).2.find? p := by
  by_cases hwritable : fs.Writable p ∧ fs.Writable p.temporary
  · obtain ⟨hp, htemporary⟩ := hwritable
    rw [find?_saveSnapshot hp htemporary,
      find?_saveSnapshot (hsame.writable hp) (hsame.writable htemporary)]
  · have hwritable' : ¬ (fs'.Writable p ∧ fs'.Writable p.temporary) := by
      rwa [hsame.writable_iff p, hsame.writable_iff p.temporary] at hwritable
    rw [find?_saveSnapshot_of_not_writable hwritable,
      find?_saveSnapshot_of_not_writable hwritable', h]

end Files

/-! ### Opening what was saved -/

namespace Store

variable {α : Type} [Storable α] {fs fs' : Files} {path : Path}

theorem openAt_eq_of_find?_eq (h : fs'.find? path = fs.find? path) :
    (openAt path fs' : Store α) = openAt path fs := by
  refine openAt_eq_of_read_eq ?_
  rw [Files.toOption_read, Files.toOption_read, h]

theorem openAt_of_find? {contents : Dict α}
    (h : fs.find? path = some (.file (encode contents).toUTF8)) :
    (openAt path fs : Store α) = ⟨contents, false⟩ :=
  openAt_of_read (Files.read_of_find? h)

end Store

end JobTrace
