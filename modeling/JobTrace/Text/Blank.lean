/-!
Blanks around a text.

The blanks that may surround a record are the characters with the Unicode property
`White_Space`, which are more than the four that JSON knows and that are core's
`Char.isWhitespace`.  Main statements: blanks put around a text are taken off again (`trim_pad`),
and blanks are all that is taken off (`exists_eq_trim_between`).
-/

namespace JobTrace.Text

/-- The ranges of the property, ends included. -/
def blankRanges : List (Nat × Nat) :=
  [(0x09, 0x0D), (0x20, 0x20), (0x85, 0x85), (0xA0, 0xA0), (0x1680, 0x1680), (0x2000, 0x200A),
    (0x2028, 0x2029), (0x202F, 0x202F), (0x205F, 0x205F), (0x3000, 0x3000)]

/-- Whether a character has the property `White_Space`. -/
def isBlank (c : Char) : Bool :=
  blankRanges.any fun r => r.1 ≤ c.toNat && c.toNat ≤ r.2

/-- Characters without the blanks in front and behind. -/
def trimChars (cs : List Char) : List Char :=
  ((cs.dropWhile isBlank).reverse.dropWhile isBlank).reverse

def trim (s : String) : String := String.ofList (trimChars s.toList)

/-! ### Trimming absorbs blanks -/

theorem dropWhile_append_of_all {cs : List Char} (h : ∀ c ∈ cs, isBlank c) (ds : List Char) :
    (cs ++ ds).dropWhile isBlank = ds.dropWhile isBlank := by
  induction cs with
  | nil => rfl
  | cons c cs ih =>
    have hc : isBlank c = true := h c (List.mem_cons_self ..)
    simp [hc, ih fun d hd => h d (List.mem_cons_of_mem _ hd)]

theorem dropWhile_append_all {ds : List Char} (cs : List Char) (h : ∀ c ∈ ds, isBlank c) :
    ∃ es, (cs ++ ds).dropWhile isBlank = cs.dropWhile isBlank ++ es ∧ ∀ c ∈ es, isBlank c := by
  induction cs with
  | nil =>
    refine ⟨ds.dropWhile isBlank, by simp, fun c hc => h c ?_⟩
    exact (List.dropWhile_suffix _).subset hc
  | cons c cs ih =>
    by_cases hc : isBlank c
    · simpa [hc] using ih
    · exact ⟨ds, by simp [hc], h⟩

theorem trim_pad {front back : List Char} (hf : ∀ c ∈ front, isBlank c)
    (hb : ∀ c ∈ back, isBlank c) (cs : List Char) :
    trimChars (front ++ cs ++ back) = trimChars cs := by
  obtain ⟨es, hes, hall⟩ := dropWhile_append_all cs hb
  rw [trimChars, List.append_assoc, dropWhile_append_of_all hf, hes, List.reverse_append,
    dropWhile_append_of_all (by simpa using hall)]
  rfl

theorem trim_surrounded {front back : String} (hf : ∀ c ∈ front.toList, isBlank c)
    (hb : ∀ c ∈ back.toList, isBlank c) (s : String) : trim (front ++ s ++ back) = trim s := by
  unfold trim
  rw [String.toList_append, String.toList_append, trim_pad hf hb]

/-- What trimming leaves of a text stands in it between blanks. -/
theorem exists_eq_trimChars_between (cs : List Char) :
    ∃ front back, (∀ c ∈ front, isBlank c) ∧ (∀ c ∈ back, isBlank c) ∧
      cs = front ++ trimChars cs ++ back := by
  have hblanks : ∀ ds : List Char, ∀ c ∈ ds.takeWhile isBlank, isBlank c :=
    fun _ => List.all_eq_true.1 List.all_takeWhile
  have hrest : trimChars cs ++ ((cs.dropWhile isBlank).reverse.takeWhile isBlank).reverse =
      cs.dropWhile isBlank := by
    rw [trimChars, ← List.reverse_append, List.takeWhile_append_dropWhile, List.reverse_reverse]
  refine ⟨_, ((cs.dropWhile isBlank).reverse.takeWhile isBlank).reverse, hblanks cs, ?_, ?_⟩
  · intro c hc
    exact hblanks _ c (List.mem_reverse.1 hc)
  · rw [List.append_assoc, hrest, List.takeWhile_append_dropWhile]

theorem exists_eq_trim_between (s : String) :
    ∃ front back : String, (∀ c ∈ front.toList, isBlank c) ∧ (∀ c ∈ back.toList, isBlank c) ∧
      s = front ++ trim s ++ back := by
  obtain ⟨front, back, hfront, hback, hs⟩ := exists_eq_trimChars_between s.toList
  refine ⟨String.ofList front, String.ofList back, ?_, ?_, ?_⟩
  · rw [String.toList_ofList]
    exact hfront
  · rw [String.toList_ofList]
    exact hback
  · rw [trim, ← String.ofList_append, ← String.ofList_append, ← hs, String.ofList_toList]

/-- A trimmed text has nothing left to trim. -/
theorem trim_trim (s : String) : trim (trim s) = trim s := by
  obtain ⟨front, back, hfront, hback, hs⟩ := exists_eq_trim_between s
  calc trim (trim s)
      = trim (front ++ trim s ++ back) := (trim_surrounded hfront hback (trim s)).symm
    _ = trim s := by rw [← hs]

/-- Between two characters that are no blanks there is nothing to trim. -/
theorem trimChars_of_ends {first last : Char} (hfirst : isBlank first = false)
    (hlast : isBlank last = false) (cs : List Char) :
    trimChars (first :: (cs ++ [last])) = first :: (cs ++ [last]) := by
  simp [trimChars, hfirst, hlast]

end JobTrace.Text
