import Mathlib.Data.List.Nodup
import Mathlib.Data.List.Perm.Basic

/-!
# Lists in which repeated members are left out

* `nodup_eraseDups`, `eraseDupsBy_concat` — of members that repeat each other the first one stays;
* `perm_flatMap_filter` — the members of a list, sorted by a key, are the members of the list.
-/

namespace WholeProgram

variable {α κ : Type}

theorem nodup_eraseDups [BEq α] [LawfulBEq α] : ∀ l : List α, l.eraseDups.Nodup
  | [] => by simp
  | a :: l => by
    rw [List.eraseDups_cons, List.nodup_cons]
    exact ⟨by simp [List.mem_eraseDups], nodup_eraseDups (l.filter fun b => !b == a)⟩
termination_by l => l.length
decreasing_by exact Nat.lt_succ_of_le (List.length_filter_le _ _)

/-- Another member stays if it repeats none of those before it. -/
theorem eraseDupsBy_concat (same : α → α → Bool) (l : List α) (a : α) :
    (l ++ [a]).eraseDupsBy same =
      if (l.eraseDupsBy same).any (same a) then l.eraseDupsBy same else l.eraseDupsBy same ++ [a] := by
  have hloop : ∀ l kept : List α, List.eraseDupsBy.loop same (l ++ [a]) kept =
      if (List.eraseDupsBy.loop same l kept).any (same a) then List.eraseDupsBy.loop same l kept
      else List.eraseDupsBy.loop same l kept ++ [a] := by
    intro l
    induction l with
    | nil =>
      intro kept
      simp only [List.nil_append, List.eraseDupsBy.loop, List.any_reverse]
      cases kept.any (same a) <;> simp
    | cons b l ih =>
      intro kept
      by_cases hb : kept.any (same b) = true
      · simp only [List.cons_append, List.eraseDupsBy.loop, hb]
        exact ih kept
      · have hb : kept.any (same b) = false := eq_false_of_ne_true hb
        simp only [List.cons_append, List.eraseDupsBy.loop, hb]
        exact ih (b :: kept)
  exact hloop l []

/-- Sorted by a key that takes each of its values, the members of a list are the same. -/
theorem perm_flatMap_filter [BEq κ] [LawfulBEq κ] (key : α → κ) {ks : List κ} (hks : ks.Nodup)
    {l : List α} (hl : ∀ a ∈ l, key a ∈ ks) : (ks.flatMap fun k => l.filter (key · == k)).Perm l := by
  induction ks generalizing l with
  | nil =>
    obtain rfl := List.eq_nil_iff_forall_not_mem.mpr fun a ha => List.not_mem_nil (hl a ha)
    exact .nil
  | cons k ks ih =>
    obtain ⟨hk, hks⟩ := List.nodup_cons.mp hks
    rw [List.flatMap_cons]
    refine .trans (.append_left _ ?_) (List.filter_append_perm (key · == k) l)
    -- the other keys find their members among those that do not have the key `k`
    have hothers : ∀ k' ∈ ks, l.filter (key · == k') = (l.filter fun a => !key a == k).filter (key · == k') := by
      intro k' hk'
      rw [List.filter_filter]
      refine List.filter_congr fun a _ => ?_
      by_cases ha : key a = k'
      · have hne : key a ≠ k := fun h => hk (h ▸ ha ▸ hk')
        simp [ha, ha ▸ hne]
      · simp [ha]
    rw [List.flatMap_congr hothers]
    refine ih hks fun a ha => ?_
    obtain ⟨hmem, hne⟩ := List.mem_filter.mp ha
    exact (List.mem_cons.mp (hl a hmem)).resolve_left (by simpa using hne)

end WholeProgram
