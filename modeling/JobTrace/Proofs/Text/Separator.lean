import JobTrace.Files.Path

/-!
# Texts joined by a separator

Where parts are joined by a separator and nothing is escaped, the last part can still be told
apart if it does not hold the separator itself.  Keys of jobs and paths of files both rest on
this: the one are joined with underscores, the others with slashes.
-/

namespace JobTrace

theorem append_sep_inj {sep : Char} {xs ys ds es : List Char} (hds : sep ∉ ds) (hes : sep ∉ es)
    (h : xs ++ sep :: ds = ys ++ sep :: es) : xs = ys ∧ ds = es := by
  rcases List.append_eq_append_iff.1 h with ⟨as, hys, htail⟩ | ⟨as, hxs, htail⟩
  · cases as with
    | nil =>
      rw [List.nil_append, List.cons.injEq] at htail
      exact ⟨by rw [hys, List.append_nil], htail.2⟩
    | cons a as =>
      rw [List.cons_append, List.cons.injEq] at htail
      exact absurd (htail.2 ▸ List.mem_append_right as (List.mem_cons_self ..)) hds
  · cases as with
    | nil =>
      rw [List.nil_append, List.cons.injEq] at htail
      exact ⟨by rw [hxs, List.append_nil], htail.2.symm⟩
    | cons a as =>
      rw [List.cons_append, List.cons.injEq] at htail
      exact absurd (htail.2 ▸ List.mem_append_right as (List.mem_cons_self ..)) hes

namespace Path

theorem splitSlash_ne_nil (cs : List Char) : splitSlash cs ≠ [] := by
  cases cs with
  | nil => simp [splitSlash]
  | cons c cs =>
    unfold splitSlash
    split
    · simp
    · split <;> simp

theorem splitSlash_of_not_mem {cs : List Char} (h : '/' ∉ cs) : splitSlash cs = [cs] := by
  induction cs with
  | nil => rfl
  | cons c cs ih =>
    rw [List.mem_cons, not_or] at h
    rw [splitSlash, if_neg fun hc => h.1 hc.symm, ih h.2]

/-- A slash ends a segment, and what stands behind it is split on its own. -/
theorem splitSlash_append_slash (cs rest : List Char) :
    splitSlash (cs ++ '/' :: rest) = splitSlash cs ++ splitSlash rest := by
  induction cs with
  | nil => simp [splitSlash]
  | cons c cs ih =>
    rw [List.cons_append, splitSlash, splitSlash, ih]
    by_cases hc : c = '/'
    · rw [if_pos hc, if_pos hc, List.cons_append]
    · rw [if_neg hc, if_neg hc]
      cases hs : splitSlash cs with
      | nil => exact absurd hs (splitSlash_ne_nil cs)
      | cons s ss => rfl

/-- The start of a path is seen in front of the first slash behind it. -/
theorem splitStart_append_slash {cs : List Char} (h : cs ≠ []) (rest : List Char) :
    splitStart (cs ++ '/' :: rest) = ((splitStart cs).1, (splitStart cs).2 ++ '/' :: rest) := by
  match cs, h with
  | '/' :: cs, _ => rfl
  | ['.'], _ => rfl
  | '.' :: '/' :: cs, _ => rfl
  | c :: cs, _ =>
    by_cases hroot : c = '/'
    · subst hroot
      rfl
    · by_cases hdot : c = '.'
      · subst hdot
        cases cs with
        | nil => rfl
        | cons d cs =>
          by_cases hslash : d = '/'
          · subst hslash
            rfl
          · simp [splitStart, hslash]
      · simp [splitStart, hroot, hdot]

theorem slash_not_mem_of_mem_splitSlash {cs s : List Char} (h : s ∈ splitSlash cs) :
    '/' ∉ s := by
  induction cs generalizing s with
  | nil =>
    rw [List.mem_singleton.1 h]
    exact List.not_mem_nil
  | cons c cs ih =>
    unfold splitSlash at h
    split at h
    · rcases List.mem_cons.1 h with rfl | h
      · exact List.not_mem_nil
      · exact ih h
    · next hc =>
      split at h
      · next hnil => exact absurd hnil (splitSlash_ne_nil cs)
      · next first rest hcons =>
        rcases List.mem_cons.1 h with rfl | h
        · intro hmem
          rcases List.mem_cons.1 hmem with hslash | hmem
          · exact hc hslash.symm
          · exact ih (hcons ▸ List.mem_cons_self ..) hmem
        · exact ih (hcons ▸ List.mem_cons_of_mem _ h)

end Path

end JobTrace
