import JobTrace.Json.Value

/-!
# The outside of a value

Facts about values that can be seen from outside, without reading what is in them.

The compact text of a list or a map has its own brackets at both ends, whatever is between.  So it
is never mistaken for a word or a number, and no blanks stand around it.

A reader that limits the depth gives nothing deeper than that, and neither sorting the keys of what
it gives nor changing its numbers makes it any deeper.  So a value that has come out of a text can
go into one again.

And the numbers of what it gives are those of numerals, which are signed integers wherever they can
be.
-/

namespace JobTrace

/-! ### Brackets -/

namespace Document

theorem exists_tokens_list (ds : List Document) :
    ∃ ts, tokens (.list ds) = .mark .openList :: (ts ++ [.mark .closeList]) := by
  cases ds with
  | nil => exact ⟨[], by simp only [tokens, List.nil_append]⟩
  | cons d ds => exact ⟨tokens d ++ moreItems ds, by simp only [tokens, List.cons_append]⟩

theorem exists_tokens_map (ms : List (StringLiteral × Document)) :
    ∃ ts, tokens (.map ms) = .mark .openMap :: (ts ++ [.mark .closeMap]) := by
  cases ms with
  | nil => exact ⟨[], by simp only [tokens, List.nil_append]⟩
  | cons m ms =>
    obtain ⟨k, d⟩ := m
    exact ⟨.quoted k :: .mark .colon :: tokens d ++ moreMembers ms, by
      simp only [tokens, List.cons_append]⟩

theorem toList_text_of_tokens {d : Document} {first last : Punctuation} {ts : List Token}
    (h : tokens d = .mark first :: (ts ++ [.mark last])) :
    d.text.toList = first.char :: (ts.flatMap Token.text ++ [last.char]) := by
  simp [text, h, Token.text]

end Document

namespace Tree

variable {ν : Type} [Spelt ν]

theorem exists_toList_text_list (ts : List (Tree String ν)) :
    ∃ cs, (list ts).text.toList = '[' :: (cs ++ [']']) := by
  obtain ⟨inner, htokens⟩ :=
    Document.exists_tokens_list (mapItems StringLiteral.quote Spelt.numeral ts)
  refine ⟨inner.flatMap Token.text, ?_⟩
  rw [text, document, mapScalars]
  exact Document.toList_text_of_tokens htokens

theorem exists_toList_text_map (ms : List (String × Tree String ν)) :
    ∃ cs, (map ms).text.toList = '{' :: (cs ++ ['}']) := by
  obtain ⟨inner, htokens⟩ :=
    Document.exists_tokens_map (mapMembers StringLiteral.quote Spelt.numeral ms)
  refine ⟨inner.flatMap Token.text, ?_⟩
  rw [text, document, mapScalars]
  exact Document.toList_text_of_tokens htokens

end Tree

/-! ### Depth -/

namespace Tree

variable {σ ν σ' ν' : Type}

mutual

theorem depth_le_of_interpret? {f : σ → Option σ'} {g : ν → Option ν'} :
    ∀ {d : Nat} {t : Tree σ ν} {t' : Tree σ' ν'}, interpret? f g d t = some t' → t'.depth ≤ d
  | _, null, _, h => by
    obtain rfl := Option.some.inj (by simpa [interpret?] using h)
    simp [depth]
  | _, bool b, _, h => by
    obtain rfl := Option.some.inj (by simpa [interpret?] using h)
    simp [depth]
  | _, number n, _, h => by
    simp only [interpret?, Option.map_eq_some_iff] at h
    obtain ⟨n', -, rfl⟩ := h
    simp [depth]
  | _, string s, _, h => by
    simp only [interpret?, Option.map_eq_some_iff] at h
    obtain ⟨s', -, rfl⟩ := h
    simp [depth]
  | 0, list ts, _, h => by simp [interpret?] at h
  | d + 1, list ts, _, h => by
    simp only [interpret?, Option.map_eq_some_iff] at h
    obtain ⟨ts', hts, rfl⟩ := h
    rw [depth]
    exact Nat.succ_le_succ (depthItems_le_of_interpretItems? hts)
  | 0, map ms, _, h => by simp [interpret?] at h
  | d + 1, map ms, _, h => by
    simp only [interpret?, Option.map_eq_some_iff] at h
    obtain ⟨ms', hms, rfl⟩ := h
    rw [depth]
    exact Nat.succ_le_succ (depthMembers_le_of_interpretMembers? hms)

theorem depthItems_le_of_interpretItems? {f : σ → Option σ'} {g : ν → Option ν'} {d : Nat} :
    ∀ {ts : List (Tree σ ν)} {ts' : List (Tree σ' ν')}, interpretItems? f g d ts = some ts' →
      depthItems ts' ≤ d
  | [], _, h => by
    obtain rfl := Option.some.inj (by simpa [interpretItems?] using h)
    simp [depthItems]
  | t :: ts, _, h => by
    simp only [interpretItems?] at h
    split at h
    · exact absurd h (by simp)
    · next t' ht =>
      obtain ⟨ts', hts, rfl⟩ := Option.map_eq_some_iff.1 h
      rw [depthItems]
      exact Nat.max_le.2 ⟨depth_le_of_interpret? ht, depthItems_le_of_interpretItems? hts⟩

theorem depthMembers_le_of_interpretMembers? {f : σ → Option σ'} {g : ν → Option ν'} {d : Nat} :
    ∀ {ms : List (σ × Tree σ ν)} {ms' : List (σ' × Tree σ' ν')},
      interpretMembers? f g d ms = some ms' → depthMembers ms' ≤ d
  | [], _, h => by
    obtain rfl := Option.some.inj (by simpa [interpretMembers?] using h)
    simp [depthMembers]
  | (k, t) :: ms, _, h => by
    simp only [interpretMembers?] at h
    split at h
    · next k' t' hk ht =>
      obtain ⟨ms', hms, rfl⟩ := Option.map_eq_some_iff.1 h
      rw [depthMembers]
      exact Nat.max_le.2 ⟨depth_le_of_interpret? ht, depthMembers_le_of_interpretMembers? hms⟩
    · exact absurd h (by simp)

end

mutual

theorem depth_mapScalars (f : σ → σ') (g : ν → ν') : ∀ t : Tree σ ν,
    (t.mapScalars f g).depth = t.depth
  | null | bool _ | number _ | string _ => by simp [mapScalars, depth]
  | list ts => by rw [mapScalars, depth, depth, depthItems_mapItems f g ts]
  | map ms => by rw [mapScalars, depth, depth, depthMembers_mapMembers f g ms]

theorem depthItems_mapItems (f : σ → σ') (g : ν → ν') : ∀ ts : List (Tree σ ν),
    depthItems (mapItems f g ts) = depthItems ts
  | [] => rfl
  | t :: ts => by
    rw [mapItems, depthItems, depthItems, depth_mapScalars f g t, depthItems_mapItems f g ts]

theorem depthMembers_mapMembers (f : σ → σ') (g : ν → ν') : ∀ ms : List (σ × Tree σ ν),
    depthMembers (mapMembers f g ms) = depthMembers ms
  | [] => rfl
  | (k, t) :: ms => by
    rw [mapMembers, depthMembers, depthMembers, depth_mapScalars f g t,
      depthMembers_mapMembers f g ms]

end

mutual

/-- Of repeated keys all but one are gone, so a map may only become less deep. -/
theorem depth_normalize_le : ∀ t : Tree String ν, t.normalize.depth ≤ t.depth
  | null | bool _ | number _ | string _ => by simp [normalize, depth]
  | list ts => by
    rw [normalize, depth, depth]
    exact Nat.succ_le_succ (depthItems_normalizeItems_le ts)
  | map ms => by
    rw [normalize, depth, depth]
    refine Nat.succ_le_succ (depthMembers_le_iff.2 ?_)
    intro e he
    rcases mem_of_mem_insertAll he with he | he
    · exact depthMembers_le_iff.1 (depthMembers_normalizeMembers_le ms) e he
    · exact absurd he List.not_mem_nil

theorem depthItems_normalizeItems_le : ∀ ts : List (Tree String ν),
    depthItems (normalizeItems ts) ≤ depthItems ts
  | [] => Nat.le_refl _
  | t :: ts => by
    have ht := depth_normalize_le t
    have hts := depthItems_normalizeItems_le ts
    rw [normalizeItems, depthItems, depthItems]
    omega

theorem depthMembers_normalizeMembers_le : ∀ ms : List (String × Tree String ν),
    depthMembers (normalizeMembers ms) ≤ depthMembers ms
  | [] => Nat.le_refl _
  | (k, t) :: ms => by
    have ht := depth_normalize_le t
    have hms := depthMembers_normalizeMembers_le ms
    rw [normalizeMembers, depthMembers, depthMembers]
    omega

end

end Tree

/-- A text whose values have a meaning is no deeper than a reader admits. -/
theorem Content.depth_le_of_ofText? {s : String} {c : Content} (h : Content.ofText? s = some c) :
    c.depth ≤ maxDepth := by
  obtain ⟨d, -, hcontent⟩ := Option.bind_eq_some_iff.1 h
  exact Tree.depth_le_of_interpret? hcontent

theorem Json.depth_le_of_ofText? {s : String} {v : Json} (h : Json.ofText? s = some v) :
    v.tree.depth ≤ maxDepth := by
  obtain ⟨c, hcontent, rfl⟩ := Option.map_eq_some_iff.1 h
  exact Nat.le_trans (Tree.depth_normalize_le c) (Content.depth_le_of_ofText? hcontent)

/-! ### Numbers -/

/-- An integer is unsigned only beyond the signed range. -/
def JsonNumber.Sized : JsonNumber → Prop
  | unsigned n => Nat.pow 2 63 ≤ n.toNat
  | int _ | float _ => True

theorem JsonNumber.sized_of_ofNumeral? {n : Numeral} {x : JsonNumber}
    (h : ofNumeral? n = some x) : x.Sized := by
  have hfloat : n.toBinary64?.map JsonNumber.float = some x → x.Sized := by
    intro hx
    obtain ⟨d, -, rfl⟩ := Option.map_eq_some_iff.1 hx
    trivial
  unfold ofNumeral? at h
  dsimp only at h
  split at h
  · split at h
    · split at h
      · obtain rfl := Option.some.inj h
        trivial
      · exact hfloat h
    · split at h
      · obtain rfl := Option.some.inj h
        trivial
      · next hbig =>
        split at h
        · next hfits =>
          obtain rfl := Option.some.inj h
          show Nat.pow 2 63 ≤ (UInt64.ofNat n.coefficient).toNat
          rw [UInt64.toNat_ofNat_of_lt' hfits]
          exact Nat.not_lt.1 hbig
        · exact hfloat h
  · exact hfloat h

namespace Tree

variable {σ ν σ' ν' : Type} {f : σ → Option σ'} {g : ν → Option ν'}

mutual

/-- Interpreting a tree makes numbers of its numbers alone. -/
theorem exists_of_mem_numbers_interpret? : ∀ {d : Nat} {t : Tree σ ν} {t' : Tree σ' ν'},
    interpret? f g d t = some t' → ∀ n' ∈ t'.numbers, ∃ n, g n = some n'
  | _, null, _, h => by
    obtain rfl := Option.some.inj (by simpa [interpret?] using h)
    simp [numbers]
  | _, bool b, _, h => by
    obtain rfl := Option.some.inj (by simpa [interpret?] using h)
    simp [numbers]
  | _, number n, _, h => by
    simp only [interpret?, Option.map_eq_some_iff] at h
    obtain ⟨x, hx, rfl⟩ := h
    intro n' hn'
    obtain rfl : n' = x := by simpa [numbers] using hn'
    exact ⟨n, hx⟩
  | _, string s, _, h => by
    simp only [interpret?, Option.map_eq_some_iff] at h
    obtain ⟨s', -, rfl⟩ := h
    simp [numbers]
  | 0, list ts, _, h => by simp [interpret?] at h
  | d + 1, list ts, _, h => by
    simp only [interpret?, Option.map_eq_some_iff] at h
    obtain ⟨ts', hts, rfl⟩ := h
    simp only [numbers]
    exact exists_of_mem_numbersItems_interpretItems? hts
  | 0, map ms, _, h => by simp [interpret?] at h
  | d + 1, map ms, _, h => by
    simp only [interpret?, Option.map_eq_some_iff] at h
    obtain ⟨ms', hms, rfl⟩ := h
    simp only [numbers]
    exact exists_of_mem_numbersMembers_interpretMembers? hms

theorem exists_of_mem_numbersItems_interpretItems? :
    ∀ {d : Nat} {ts : List (Tree σ ν)} {ts' : List (Tree σ' ν')},
      interpretItems? f g d ts = some ts' → ∀ n' ∈ numbersItems ts', ∃ n, g n = some n'
  | _, [], _, h => by
    obtain rfl := Option.some.inj (by simpa [interpretItems?] using h)
    simp [numbersItems]
  | d, t :: ts, _, h => by
    simp only [interpretItems?] at h
    split at h
    · exact absurd h (by simp)
    · next t' ht =>
      obtain ⟨ts', hts, rfl⟩ := Option.map_eq_some_iff.1 h
      rw [numbersItems, List.forall_mem_append]
      exact ⟨exists_of_mem_numbers_interpret? ht, exists_of_mem_numbersItems_interpretItems? hts⟩

theorem exists_of_mem_numbersMembers_interpretMembers? :
    ∀ {d : Nat} {ms : List (σ × Tree σ ν)} {ms' : List (σ' × Tree σ' ν')},
      interpretMembers? f g d ms = some ms' → ∀ n' ∈ numbersMembers ms', ∃ n, g n = some n'
  | _, [], _, h => by
    obtain rfl := Option.some.inj (by simpa [interpretMembers?] using h)
    simp [numbersMembers]
  | d, (k, t) :: ms, _, h => by
    simp only [interpretMembers?] at h
    split at h
    · next k' t' hk ht =>
      obtain ⟨ms', hms, rfl⟩ := Option.map_eq_some_iff.1 h
      rw [numbersMembers, List.forall_mem_append]
      exact ⟨exists_of_mem_numbers_interpret? ht,
        exists_of_mem_numbersMembers_interpretMembers? hms⟩
    · exact absurd h (by simp)

end

end Tree

theorem Document.sized_of_content? {depth : Nat} {d : Document} {c : Content}
    (h : d.content? depth = some c) : ∀ n ∈ c.numbers, n.Sized := by
  intro n hn
  obtain ⟨numeral, hnumeral⟩ := Tree.exists_of_mem_numbers_interpret? h n hn
  exact JsonNumber.sized_of_ofNumeral? hnumeral

end JobTrace
