import JobTrace.Json.Value
import JobTrace.Proofs.Json.Reading

/-!
# Values are read back

A tree is written by spelling its scalars and read by giving the spellings their meaning.  The
text of a tree is read back, then, when the tree is not nested too deeply and each of its numbers
is one that its own spelling stands for.  Of the second there is no doubt for 64-bit integers.

Reading may end in another kind of number than writing began with, as when field values are
written and JSON values are read; `f` below says what becomes of a number on the way.
-/

namespace JobTrace

namespace Tree

variable {σ ν σ' ν' σ'' ν'' : Type}

mutual

theorem strings_mapScalars (f : σ → σ') (g : ν → ν') : ∀ t : Tree σ ν,
    (t.mapScalars f g).strings = t.strings.map f
  | null | bool _ | number _ | string _ => by simp [mapScalars, strings]
  | list ts => by
    simp only [mapScalars, strings]
    exact stringsItems_mapItems f g ts
  | map ms => by
    simp only [mapScalars, strings]
    exact stringsMembers_mapMembers f g ms

theorem stringsItems_mapItems (f : σ → σ') (g : ν → ν') : ∀ ts : List (Tree σ ν),
    stringsItems (mapItems f g ts) = (stringsItems ts).map f
  | [] => rfl
  | t :: ts => by
    simp only [mapItems, stringsItems, List.map_append]
    rw [strings_mapScalars f g t, stringsItems_mapItems f g ts]

theorem stringsMembers_mapMembers (f : σ → σ') (g : ν → ν') : ∀ ms : List (σ × Tree σ ν),
    stringsMembers (mapMembers f g ms) = (stringsMembers ms).map f
  | [] => rfl
  | (k, t) :: ms => by
    simp only [mapMembers, stringsMembers, List.map_append, List.map_cons]
    rw [strings_mapScalars f g t, stringsMembers_mapMembers f g ms]

end

mutual

theorem numbers_mapScalars (f : σ → σ') (g : ν → ν') : ∀ t : Tree σ ν,
    (t.mapScalars f g).numbers = t.numbers.map g
  | null | bool _ | number _ | string _ => by simp [mapScalars, numbers]
  | list ts => by
    simp only [mapScalars, numbers]
    exact numbersItems_mapItems f g ts
  | map ms => by
    simp only [mapScalars, numbers]
    exact numbersMembers_mapMembers f g ms

theorem numbersItems_mapItems (f : σ → σ') (g : ν → ν') : ∀ ts : List (Tree σ ν),
    numbersItems (mapItems f g ts) = (numbersItems ts).map g
  | [] => rfl
  | t :: ts => by
    simp only [mapItems, numbersItems, List.map_append]
    rw [numbers_mapScalars f g t, numbersItems_mapItems f g ts]

theorem numbersMembers_mapMembers (f : σ → σ') (g : ν → ν') : ∀ ms : List (σ × Tree σ ν),
    numbersMembers (mapMembers f g ms) = (numbersMembers ms).map g
  | [] => rfl
  | (k, t) :: ms => by
    simp only [mapMembers, numbersMembers, List.map_append]
    rw [numbers_mapScalars f g t, numbersMembers_mapMembers f g ms]

end

mutual

theorem mapScalars_id : ∀ t : Tree σ ν, t.mapScalars id id = t
  | null | bool _ | number _ | string _ => by simp [mapScalars]
  | list ts => by rw [mapScalars, mapItems_id ts]
  | map ms => by rw [mapScalars, mapMembers_id ms]

theorem mapItems_id : ∀ ts : List (Tree σ ν), mapItems id id ts = ts
  | [] => rfl
  | t :: ts => by rw [mapItems, mapScalars_id t, mapItems_id ts]

theorem mapMembers_id : ∀ ms : List (σ × Tree σ ν), mapMembers id id ms = ms
  | [] => rfl
  | (k, t) :: ms => by rw [mapMembers, mapScalars_id t, mapMembers_id ms, id]

end

mutual

theorem mapScalars_mapScalars (f : σ → σ') (g : ν → ν') (f' : σ' → σ'') (g' : ν' → ν'') :
    ∀ t : Tree σ ν, (t.mapScalars f g).mapScalars f' g' = t.mapScalars (f' ∘ f) (g' ∘ g)
  | null | bool _ | number _ | string _ => by simp [mapScalars]
  | list ts => by rw [mapScalars, mapScalars, mapScalars, mapItems_mapItems f g f' g' ts]
  | map ms => by rw [mapScalars, mapScalars, mapScalars, mapMembers_mapMembers f g f' g' ms]

theorem mapItems_mapItems (f : σ → σ') (g : ν → ν') (f' : σ' → σ'') (g' : ν' → ν'') :
    ∀ ts : List (Tree σ ν), mapItems f' g' (mapItems f g ts) = mapItems (f' ∘ f) (g' ∘ g) ts
  | [] => rfl
  | t :: ts => by
    rw [mapItems, mapItems, mapItems, mapScalars_mapScalars f g f' g' t,
      mapItems_mapItems f g f' g' ts]

theorem mapMembers_mapMembers (f : σ → σ') (g : ν → ν') (f' : σ' → σ'') (g' : ν' → ν'') :
    ∀ ms : List (σ × Tree σ ν),
      mapMembers f' g' (mapMembers f g ms) = mapMembers (f' ∘ f) (g' ∘ g) ms
  | [] => rfl
  | (k, t) :: ms => by
    rw [mapMembers, mapMembers, mapMembers, mapScalars_mapScalars f g f' g' t,
      mapMembers_mapMembers f g f' g' ms, Function.comp]

end

mutual

/-- Spelling every scalar and giving every spelling its meaning. -/
theorem interpret?_mapScalars {f : σ → σ'} {g : ν → ν'} {f' : σ' → Option σ}
    {g' : ν' → Option ν''} {h : ν → ν''} (hf : ∀ s, f' (f s) = some s) :
    ∀ {t : Tree σ ν} {d : Nat}, t.depth ≤ d → (∀ n ∈ t.numbers, g' (g n) = some (h n)) →
      interpret? f' g' d (t.mapScalars f g) = some (t.mapScalars id h)
  | null, _, _, _ | bool _, _, _, _ => by simp [mapScalars, interpret?]
  | string s, _, _, _ => by simp [mapScalars, interpret?, hf]
  | number n, _, _, hn => by
    have hread := hn n (by simp [numbers])
    simp [mapScalars, interpret?, hread]
  | list ts, 0, hd, _ => by
    simp only [depth] at hd
    exact absurd hd (Nat.not_succ_le_zero _)
  | list ts, d + 1, hd, hn => by
    simp only [depth] at hd
    simp only [mapScalars, interpret?]
    rw [interpretItems?_mapItems hf (Nat.le_of_succ_le_succ hd) hn]
    rfl
  | map ms, 0, hd, _ => by
    simp only [depth] at hd
    exact absurd hd (Nat.not_succ_le_zero _)
  | map ms, d + 1, hd, hn => by
    simp only [depth] at hd
    simp only [mapScalars, interpret?]
    rw [interpretMembers?_mapMembers hf (Nat.le_of_succ_le_succ hd) hn]
    rfl

theorem interpretItems?_mapItems {f : σ → σ'} {g : ν → ν'} {f' : σ' → Option σ}
    {g' : ν' → Option ν''} {h : ν → ν''} (hf : ∀ s, f' (f s) = some s) :
    ∀ {ts : List (Tree σ ν)} {d : Nat}, depthItems ts ≤ d →
      (∀ n ∈ numbersItems ts, g' (g n) = some (h n)) →
      interpretItems? f' g' d (mapItems f g ts) = some (mapItems id h ts)
  | [], _, _, _ => by simp [mapItems, interpretItems?]
  | t :: ts, d, hd, hn => by
    simp only [depthItems, Nat.max_le] at hd
    simp only [numbersItems, List.forall_mem_append] at hn
    simp only [mapItems, interpretItems?]
    rw [interpret?_mapScalars hf hd.1 hn.1, interpretItems?_mapItems hf hd.2 hn.2]
    rfl

theorem interpretMembers?_mapMembers {f : σ → σ'} {g : ν → ν'} {f' : σ' → Option σ}
    {g' : ν' → Option ν''} {h : ν → ν''} (hf : ∀ s, f' (f s) = some s) :
    ∀ {ms : List (σ × Tree σ ν)} {d : Nat}, depthMembers ms ≤ d →
      (∀ n ∈ numbersMembers ms, g' (g n) = some (h n)) →
      interpretMembers? f' g' d (mapMembers f g ms) = some (mapMembers id h ms)
  | [], _, _, _ => by simp [mapMembers, interpretMembers?]
  | (k, t) :: ms, d, hd, hn => by
    simp only [depthMembers, Nat.max_le] at hd
    simp only [numbersMembers, List.forall_mem_append] at hn
    simp only [mapMembers, interpretMembers?]
    rw [hf, interpret?_mapScalars hf hd.1 hn.1, interpretMembers?_mapMembers hf hd.2 hn.2]
    rfl

end

end Tree

/-! ### Texts -/

/-- A number comes back as `x` when its spelling is read. -/
def Spelt.ReadsAs {ν : Type} [Spelt ν] (n : ν) (x : JsonNumber) : Prop :=
  (Spelt.numeral n).WellFormed ∧ JsonNumber.ofNumeral? (Spelt.numeral n) = some x

theorem JsonNumber.readsAs_int (n : Int64) : Spelt.ReadsAs (JsonNumber.int n) (.int n) :=
  ⟨Numeral.wellFormed_ofInt _, ofNumeral?_numeral_int n⟩

namespace Tree

variable {ν : Type} [Spelt ν] {t : Tree String ν} {f : ν → JsonNumber}

theorem wellFormed_document (h : ∀ n ∈ t.numbers, Spelt.ReadsAs n (f n)) :
    t.document.WellFormed := by
  refine ⟨?_, ?_⟩
  · intro s hs u hu
    rw [document, strings_mapScalars] at hs
    obtain ⟨s', -, rfl⟩ := List.mem_map.1 hs
    obtain ⟨c, -, rfl⟩ := List.mem_map.1 hu
    exact StringLiteral.wellFormed_quoteChar c
  · intro n hn
    rw [document, numbers_mapScalars] at hn
    obtain ⟨n', hn', rfl⟩ := List.mem_map.1 hn
    exact (h n' hn').1

/-- The text of a tree holds the content of that tree. -/
theorem content_ofText?_text (hdepth : t.depth ≤ maxDepth)
    (h : ∀ n ∈ t.numbers, Spelt.ReadsAs n (f n)) :
    Content.ofText? t.text = some (t.mapScalars id f) := by
  unfold Content.ofText? Tree.text
  rw [Document.ofText?_text (wellFormed_document h), Option.bind_some]
  exact interpret?_mapScalars StringLiteral.value?_quote hdepth fun n hn => (h n hn).2

end Tree

/-- The text of a content holds that content. -/
theorem Content.ofText?_text {c : Content} (hdepth : c.depth ≤ maxDepth)
    (h : ∀ n ∈ c.numbers, Spelt.ReadsAs n n) : Content.ofText? c.text = some c := by
  have hcontent := Tree.content_ofText?_text (f := id) hdepth h
  rw [Tree.mapScalars_id] at hcontent
  exact hcontent

namespace Json

/-- The text of a value is the text of that value alone. -/
theorem ofText?_text {v : Json} (hdepth : v.tree.depth ≤ maxDepth)
    (h : ∀ n ∈ v.tree.numbers, Spelt.ReadsAs n n) : Json.ofText? v.text = some v := by
  unfold Json.ofText? Value.text
  rw [Content.ofText?_text hdepth h, Option.map_some]
  exact congrArg some (Value.ext (Tree.normalize_eq_self v.canonical))

end Json

end JobTrace
