import JobTrace.Job.Identity
import JobTrace.Proofs.Number.Spelling
import JobTrace.Proofs.Text.Separator

/-!
# Keys of jobs

A key joins a cluster, which may be any text, and two decimals with underscores.  Nothing is
escaped, so a key has to be read from its end: a decimal holds no underscore, and therefore the
last two underscores are the ones that join.
-/

namespace JobTrace

theorem Int64.underscore_not_mem_decimal (n : Int64) : '_' ∉ (decimal n).toList := by
  rw [toList_decimal]
  intro h
  have hne := Numeral.forall_mem_text (p := (· ≠ '_')) (by decide) (by decide) _ _ h
  exact of_decide_eq_true hne rfl

namespace JobIdentity

theorem toList_key (i : JobIdentity) :
    i.key.toList = (i.cluster.toList ++ '_' :: (Int64.decimal i.jobId).toList) ++
      '_' :: (Int64.decimal i.jobIndex).toList := by
  simp [key]

/-- Two jobs never share an entry of a store. -/
theorem eq_of_key_eq {a b : JobIdentity} (h : a.key = b.key) : a = b := by
  have hlist : a.key.toList = b.key.toList := congrArg String.toList h
  rw [toList_key, toList_key] at hlist
  obtain ⟨hfront, hindex⟩ := append_sep_inj (Int64.underscore_not_mem_decimal _)
    (Int64.underscore_not_mem_decimal _) hlist
  obtain ⟨hcluster, hid⟩ := append_sep_inj (Int64.underscore_not_mem_decimal _)
    (Int64.underscore_not_mem_decimal _) hfront
  exact JobIdentity.ext (String.toList_injective hcluster)
    (Int64.decimal_injective (String.toList_injective hid))
    (Int64.decimal_injective (String.toList_injective hindex))

theorem key_ne {a b : JobIdentity} (h : a ≠ b) : a.key ≠ b.key :=
  fun hkey => h (eq_of_key_eq hkey)

/-- A key belongs to one cluster, one number and one index, whatever text the cluster is. -/
theorem key_eq_key_iff (a b : JobIdentity) :
    a.key = b.key ↔ a.cluster = b.cluster ∧ a.jobId = b.jobId ∧ a.jobIndex = b.jobIndex := by
  constructor
  · intro h
    obtain rfl := eq_of_key_eq h
    exact ⟨rfl, rfl, rfl⟩
  · rintro ⟨hcluster, hid, hindex⟩
    rw [JobIdentity.ext hcluster hid hindex]

/-- Read from the front, this would be a job of a cluster `c`. -/
example : key ⟨"c_1_-2", 3, 4⟩ = "c_1_-2_3_4" := by decide +kernel

end JobIdentity

end JobTrace
