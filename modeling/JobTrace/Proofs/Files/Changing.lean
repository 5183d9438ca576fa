import JobTrace.Proofs.Files.Walking

/-!
# What writing and renaming change

Writing puts a file at one place and renaming moves one; no directory comes or goes.  What is
found at a path is therefore known after either of them: the new file at the path that was named,
and what was there before at every path that leads elsewhere.
-/

namespace JobTrace

/-- The text of a file.  A directory has none, and neither has a file whose bytes spell none. -/
def FileNode.text? : FileNode → Option String
  | .directory => none
  | .file bytes => String.fromUTF8? bytes

namespace Files

variable {fs fs' : Files} {p q r : Path} {l l' : Place} {bytes : ByteArray}

/-! ### One place -/

def put (fs : Files) (l : Place) (bytes : ByteArray) : Files :=
  ⟨fs.nodes.insert l.key (.file bytes)⟩

def drop (fs : Files) (l : Place) : Files := ⟨fs.nodes.erase l.key⟩

theorem ne_root_of_node? (h : fs.node? l ≠ some .directory) : l ≠ .root := by
  rintro rfl
  exact h (node?_root fs)

/-- Two trees that differ at one place at most. -/
def AgreeExcept (l : Place) (fs fs' : Files) : Prop :=
  ∀ key, l.key ≠ key → fs'.nodes.get? key = fs.nodes.get? key

theorem agreeExcept_put : AgreeExcept l fs (fs.put l bytes) := by
  intro key hkey
  unfold put
  rw [Dict.get?_insert, if_neg hkey]

theorem agreeExcept_drop : AgreeExcept l fs (fs.drop l) := by
  intro key hkey
  unfold drop
  rw [Dict.get?_erase, if_neg hkey]

theorem AgreeExcept.node?_eq (h : AgreeExcept l fs fs') (hl : l.Proper) (hl' : l'.Proper)
    (hne : l ≠ l') : fs'.node? l' = fs.node? l' := by
  unfold node?
  rw [h l'.key]
  intro hkey
  exact hne (Place.key_injective hl hl' hkey)

/-- No directory comes or goes if there is none at the one place. -/
theorem AgreeExcept.sameDirectories (h : AgreeExcept l fs fs')
    (hbefore : fs.node? l ≠ some .directory) (hafter : fs'.node? l ≠ some .directory) :
    SameDirectories fs fs' := by
  intro l'
  by_cases hroot : l' = .root
  · simp [hroot]
  · by_cases hkey : l.key = l'.key
    · have hl := ne_root_of_node? hbefore
      unfold node? at *
      rw [if_neg hl, hkey] at hbefore hafter
      rw [if_neg hroot, if_neg hroot]
      constructor
      · intro hdir
        exact absurd hdir hbefore
      · intro hdir
        exact absurd hdir hafter
    · unfold node?
      rw [if_neg hroot, if_neg hroot, h l'.key hkey]

theorem node?_put_self (hl : l ≠ .root) : (fs.put l bytes).node? l = some (.file bytes) := by
  unfold node? put
  rw [if_neg hl, Dict.get?_insert, if_pos rfl]

theorem node?_drop_self (hl : l ≠ .root) : (fs.drop l).node? l = none := by
  unfold node? drop
  rw [if_neg hl, Dict.get?_erase, if_pos rfl]

theorem sameDirectories_put (h : fs.node? l ≠ some .directory) :
    SameDirectories fs (fs.put l bytes) := by
  apply agreeExcept_put.sameDirectories h
  rw [node?_put_self (ne_root_of_node? h)]
  simp

theorem sameDirectories_drop (h : fs.node? l ≠ some .directory) :
    SameDirectories fs (fs.drop l) := by
  apply agreeExcept_drop.sameDirectories h
  rw [node?_drop_self (ne_root_of_node? h)]
  simp

/-! ### What is found at a path -/

theorem find?_of_locate (h : fs.locate p = .ok l) : fs.find? p = fs.node? l := by
  simp [find?, h]

/-- It is enough to compare two trees where the path leads. -/
theorem SameDirectories.find?_eq (hsame : SameDirectories fs fs')
    (h : ∀ l, fs.locate p = .ok l → fs'.node? l = fs.node? l) : fs'.find? p = fs.find? p := by
  cases hp : fs.locate p with
  | ok l => rw [find?_of_locate hp, find?_of_locate (hsame.locate_ok_iff.1 hp), h l hp]
  | error e =>
    cases hp' : fs'.locate p with
    | ok l =>
      rw [hsame.locate_ok_iff.2 hp'] at hp
      exact absurd hp (by simp)
    | error e' => simp [find?, hp, hp']

theorem toOption_read (fs : Files) (p : Path) :
    (fs.read p).toOption = (fs.find? p).bind FileNode.text? := by
  unfold read find?
  cases fs.locate p with
  | error e => rfl
  | ok l =>
    cases hnode : fs.node? l with
    | none => simp [hnode, Except.toOption]
    | some node =>
      cases node with
      | directory => simp [hnode, Except.toOption, FileNode.text?]
      | file bytes =>
        cases h : String.fromUTF8? bytes <;> simp [hnode, h, Except.toOption, FileNode.text?]

theorem read_eq_ok_iff {text : String} :
    fs.read p = .ok text ↔ (fs.find? p).bind FileNode.text? = some text := by
  rw [← toOption_read]
  cases fs.read p <;> simp [Except.toOption]

theorem fromUTF8?_toUTF8 (s : String) : String.fromUTF8? s.toUTF8 = some s := by
  have hvalid : s.toUTF8.IsValidUTF8 := s.isValidUTF8
  unfold String.fromUTF8?
  rw [dif_pos (by simpa using hvalid)]
  rfl

theorem read_of_find? {text : String} (h : fs.find? p = some (.file text.toUTF8)) :
    fs.read p = .ok text := by
  rw [read_eq_ok_iff, h]
  exact fromUTF8?_toUTF8 text

/-! ### Writing -/

theorem write_ok_iff : fs.write p bytes = .ok fs' ↔
    ∃ l, fs.placeFor p = .ok l ∧ fs.node? l ≠ some .directory ∧ fs' = fs.put l bytes := by
  unfold write
  cases fs.placeFor p with
  | error e => simp
  | ok l =>
    cases hnode : fs.node? l with
    | none => simp [hnode, put, eq_comm]
    | some node => cases node <;> simp [hnode, put, eq_comm]

theorem sameDirectories_of_write (h : fs.write p bytes = .ok fs') : SameDirectories fs fs' := by
  obtain ⟨l, -, hnode, rfl⟩ := write_ok_iff.1 h
  exact sameDirectories_put hnode

/-- What was written is found. -/
theorem find?_of_write (h : fs.write p bytes = .ok fs') : fs'.find? p = some (.file bytes) := by
  have hsame := sameDirectories_of_write h
  obtain ⟨l, hl, hnode, rfl⟩ := write_ok_iff.1 h
  rw [find?_of_locate (hsame.locate_ok_iff.1 (placeFor_ok_iff.1 hl).2),
    node?_put_self (ne_root_of_node? hnode)]

/-- Nothing else is touched. -/
theorem find?_of_write_apart (h : fs.write p bytes = .ok fs') (hapart : fs.Apart p q) :
    fs'.find? q = fs.find? q := by
  refine (sameDirectories_of_write h).find?_eq fun l' hl' => ?_
  obtain ⟨l, hl, -, rfl⟩ := write_ok_iff.1 h
  have hp := (placeFor_ok_iff.1 hl).2
  apply agreeExcept_put.node?_eq (proper_of_locate_ok hp) (proper_of_locate_ok hl')
  rintro rfl
  exact hapart l hp hl'

/-! ### Renaming -/

theorem rename_ok_iff : fs.rename p q = .ok fs' ↔
    ∃ s t bytes, fs.locate p = .ok s ∧ fs.placeFor q = .ok t ∧
      fs.node? s = some (.file bytes) ∧ fs.node? t ≠ some .directory ∧
        fs' = (fs.drop s).put t bytes := by
  unfold rename
  cases fs.locate p with
  | error e => simp
  | ok s =>
    cases fs.placeFor q with
    | error e => simp
    | ok t =>
      cases hs : fs.node? s with
      | none => simp [hs]
      | some source =>
        cases source with
        | directory => simp [hs]
        | file bytes =>
          cases ht : fs.node? t with
          | none => simp [hs, ht, put, drop, eq_comm]
          | some target => cases target <;> simp [hs, ht, put, drop, eq_comm]

theorem sameDirectories_of_rename (h : fs.rename p q = .ok fs') : SameDirectories fs fs' := by
  obtain ⟨s, t, bytes, -, -, hs, ht, rfl⟩ := rename_ok_iff.1 h
  have hdrop : SameDirectories fs (fs.drop s) := sameDirectories_drop (by simp [hs])
  exact hdrop.trans (sameDirectories_put fun hdir => ht ((hdrop t).2 hdir))

/-- What was found at the source is found at the target. -/
theorem find?_of_rename (h : fs.rename p q = .ok fs') : fs'.find? q = fs.find? p := by
  have hsame := sameDirectories_of_rename h
  obtain ⟨s, t, bytes, hp, hq, hs, ht, rfl⟩ := rename_ok_iff.1 h
  rw [find?_of_locate (hsame.locate_ok_iff.1 (placeFor_ok_iff.1 hq).2), find?_of_locate hp, hs,
    node?_put_self (ne_root_of_node? ht)]

/-- Nothing is found at the source any more, unless it is the target too. -/
theorem find?_source_of_rename (h : fs.rename p q = .ok fs') (hapart : fs.Apart p q) :
    fs'.find? p = none := by
  have hsame := sameDirectories_of_rename h
  obtain ⟨s, t, bytes, hp, hq, hs, -, rfl⟩ := rename_ok_iff.1 h
  have hq := (placeFor_ok_iff.1 hq).2
  have hts : t ≠ s := by
    rintro rfl
    exact hapart t hp hq
  have hfile : fs.node? s ≠ some .directory := by simp [hs]
  rw [find?_of_locate (hsame.locate_ok_iff.1 hp),
    agreeExcept_put.node?_eq (proper_of_locate_ok hq) (proper_of_locate_ok hp) hts,
    node?_drop_self (ne_root_of_node? hfile)]

theorem find?_of_rename_apart (h : fs.rename p q = .ok fs') (hp : fs.Apart p r)
    (hq : fs.Apart q r) : fs'.find? r = fs.find? r := by
  refine (sameDirectories_of_rename h).find?_eq fun l hl => ?_
  obtain ⟨s, t, bytes, hs, ht, -, -, rfl⟩ := rename_ok_iff.1 h
  have ht := (placeFor_ok_iff.1 ht).2
  have hproper := proper_of_locate_ok hl
  have hts : t ≠ l := by
    rintro rfl
    exact hq t ht hl
  have hss : s ≠ l := by
    rintro rfl
    exact hp s hs hl
  rw [agreeExcept_put.node?_eq (proper_of_locate_ok ht) hproper hts,
    agreeExcept_drop.node?_eq (proper_of_locate_ok hs) hproper hss]

end Files

end JobTrace
