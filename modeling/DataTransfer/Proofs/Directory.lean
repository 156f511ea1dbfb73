import Mathlib.Data.List.Perm.Basic
import Mathlib.Data.List.Flatten
import Mathlib.Data.Int.Notation
import Mathlib.Data.Nat.Notation
import DataTransfer.Directory

/-!
The live units of a directory as units come and go. In which bucket a unit stands, and in which place
of it, does not count here: lists of units are the same up to their order.
-/

namespace DataTransfer

namespace Directory

variable {d d' : Directory} {n : ℤ} {e : Entry}

theorem mem_bucketAt_iff : e ∈ d.bucketAt n ↔ ∃ es, d.buckets[d.bucket n]? = some es ∧ e ∈ es := by
  unfold bucketAt
  cases d.buckets[d.bucket n]? <;> simp

theorem live_of_mem_bucketAt (h : e ∈ d.bucketAt n) : e ∈ d.live := by
  obtain ⟨es, hes, he⟩ := mem_bucketAt_iff.mp h
  exact List.mem_flatten.mpr ⟨es, List.mem_of_getElem? hes, he⟩

theorem live_of_find? (h : d.find? n = some e) : e ∈ d.live :=
  live_of_mem_bucketAt (List.mem_of_find?_eq_some h)

theorem number_of_find? (h : d.find? n = some e) : e.number = n := by
  simpa using List.find?_some h

theorem live_insert_perm (h : d.bucket e.number < d.buckets.length) :
    (d.insert e).live.Perm (e :: d.live) := by
  have hget : d.buckets[d.bucket e.number]? = some d.buckets[d.bucket e.number] :=
    List.getElem?_eq_getElem h
  have hset : d.buckets.modify (d.bucket e.number) (· ++ [e]) =
      d.buckets.set (d.bucket e.number) (d.buckets[d.bucket e.number] ++ [e]) := by
    rw [List.modify_eq_set_getElem?, hget]
    rfl
  unfold insert live
  rw [hset]
  refine (List.set_perm_cons_eraseIdx h _).flatten.trans ?_
  refine List.Perm.trans ?_ ((List.getElem_cons_eraseIdx_perm h).flatten.cons e)
  simp only [List.flatten_cons, List.append_assoc, List.singleton_append]
  exact List.perm_middle

/-- Without a bucket to put it in, the entry is lost. -/
theorem live_insert (d : Directory) (e : Entry) : (d.insert e).live.Subperm (e :: d.live) := by
  by_cases h : d.bucket e.number < d.buckets.length
  · exact (live_insert_perm h).subperm
  · unfold insert live
    rw [List.modify_eq_set_getElem?, List.getElem?_eq_none (Nat.not_lt.mp h)]
    exact (List.sublist_cons_self e _).subperm

theorem swapRemove_perm (es : List Entry) {i : ℕ} (h : i < es.length) :
    (es[i] :: swapRemove es i).Perm es := by
  rcases List.eq_nil_or_concat' es with rfl | ⟨init, last, rfl⟩
  · cases h
  rw [swapRemove, List.getLast?_concat]
  dsimp only
  rw [List.length_append, List.length_singleton, Nat.lt_succ_iff_lt_or_eq] at h
  rcases h with hi | rfl
  · rw [List.getElem_append_left hi, List.set_append_left _ _ hi, List.dropLast_concat]
    refine ((List.set_perm_cons_eraseIdx hi last).cons _).trans ?_
    refine (List.Perm.swap _ _ _).trans ?_
    refine ((List.getElem_cons_eraseIdx_perm hi).cons last).trans ?_
    exact (List.perm_append_singleton last init).symm
  · simp only [List.getElem_concat_length, List.set_append_right _ _ (Nat.le_refl _), Nat.sub_self,
      List.set_cons_zero, List.dropLast_concat]
    exact (List.perm_append_singleton last init).symm

theorem live_takeForClose (h : d.takeForClose n = some (e, d')) :
    d.live.Perm (e :: d'.live) ∧ d.find? n = some e := by
  unfold takeForClose at h
  dsimp only at h
  split at h
  · next e' i hfind hindex =>
    cases h
    refine ⟨?_, hfind⟩
    obtain ⟨es, hes, -⟩ := mem_bucketAt_iff.mp (List.mem_of_find?_eq_some hfind)
    have hbucket : d.bucketAt n = es := by
      rw [bucketAt, hes]
      rfl
    obtain ⟨hlt, rfl⟩ := List.getElem?_eq_some_iff.mp hes
    obtain ⟨hi, hfound⟩ := List.findIdx?_eq_some_iff_findIdx_eq.mp hindex
    rw [find?, List.find?_eq_getElem?_findIdx, hfound, List.getElem?_eq_getElem hi,
      Option.some.injEq] at hfind
    have hentries := swapRemove_perm _ hi
    rw [hfind, hbucket] at hentries
    refine (List.getElem_cons_eraseIdx_perm hlt).flatten.symm.trans ?_
    refine List.Perm.trans ?_ ((List.set_perm_cons_eraseIdx hlt _).flatten.symm.cons e)
    rw [List.flatten_cons, List.flatten_cons, ← List.cons_append, hbucket]
    exact hentries.symm.append_right _
  · cases h

theorem takeForClose_spec (h : d.takeForClose n = some (e, d')) :
    d'.closing = d.closing ++ [e] ∧ d'.buckets.length = d.buckets.length ∧
      ∀ (i : ℕ) (es : List Entry), d'.buckets[i]? = some es →
        ∃ old, d.buckets[i]? = some old ∧ ∀ x ∈ es, x ∈ old := by
  unfold takeForClose at h
  dsimp only at h
  split at h
  · next e' i hfind hindex =>
    cases h
    refine ⟨rfl, List.length_set, ?_⟩
    intro j es hes
    rw [List.getElem?_set] at hes
    split_ifs at hes with hj hlt
    · cases hes
      subst hj
      obtain ⟨old, hold, -⟩ := mem_bucketAt_iff.mp (List.mem_of_find?_eq_some hfind)
      refine ⟨old, hold, fun x hx => ?_⟩
      have hbucket : d.bucketAt n = old := by
        rw [bucketAt, hold]
        rfl
      obtain ⟨hi, -⟩ := List.findIdx?_eq_some_iff_findIdx_eq.mp hindex
      rw [← hbucket]
      exact (swapRemove_perm _ hi).subset (List.mem_cons_of_mem _ hx)
    · exact ⟨es, hes, fun _ => id⟩
  · cases h

theorem takeForClose_eq_none (h : d.takeForClose n = none) : d.find? n = none := by
  unfold takeForClose at h
  dsimp only at h
  split at h
  · cases h
  · next hnone =>
    cases hfind : d.find? n with
    | none => rfl
    | some e =>
      obtain ⟨i, hi⟩ : ∃ i, (d.bucketAt n).findIdx? (·.number = n) = some i := by
        refine Option.ne_none_iff_exists'.mp fun hindex => ?_
        rw [List.findIdx?_eq_none_iff] at hindex
        have he := hindex e (List.mem_of_find?_eq_some hfind)
        rw [number_of_find? hfind] at he
        simp at he
      exact (hnone e i hfind hi).elim

theorem live_takeAll (d : Directory) : d.takeAll.2.live = [] := by
  simp [takeAll, live]

end Directory

end DataTransfer
