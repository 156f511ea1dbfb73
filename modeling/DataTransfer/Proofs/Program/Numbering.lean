import Mathlib.Data.List.Nodup
import DataTransfer.Proofs.Directory

/-!
Numbers of units in a directory. A number belongs to one unit at most, live or being closed, and a live
unit stands in the bucket of its number. So the searches by number see every unit of the directory, and
what an operation leaves can be told from the lists of units alone.
-/

namespace DataTransfer

namespace Directory

def findClosing? (d : Directory) (n : ℤ) : Option Entry := d.closing.find? (·.number = n)

def Bucketed (d : Directory) : Prop :=
  ∀ i es, d.buckets[i]? = some es → ∀ e ∈ es, d.bucket e.number = i

/-- The units that have a number, live or being closed. -/
def numbered (d : Directory) : List Entry := d.live ++ d.closing

structure Numbering (d : Directory) : Prop where
  nonempty : 0 < d.buckets.length
  bucketed : d.Bucketed
  numbers : (d.numbered.map (·.number)).Nodup
  ids : (d.numbered.map (·.id)).Nodup

variable {d d' : Directory} {n : ℤ} {e : Entry} {id : ℕ}

theorem bucket_eq_of_length (h : d'.buckets.length = d.buckets.length) (n : ℤ) :
    d'.bucket n = d.bucket n := by
  rw [bucket, bucket, h]

theorem isClosing_iff : d.isClosing n = true ↔ (d.findClosing? n).isSome = true := by
  simp [isClosing, findClosing?]

/-- Units are told apart by their ids, so the first one to remove is the only one. -/
theorem eraseP_eq_filter (id : ℕ) {es : List Entry} (h : (es.map (·.id)).Nodup) :
    es.eraseP (·.id = id) = es.filter (·.id ≠ id) := by
  induction es with
  | nil => rfl
  | cons e es ih =>
    rw [List.map_cons, List.nodup_cons] at h
    by_cases he : e.id = id
    · have hrest : ∀ x ∈ es, x.id ≠ id := fun x hx heq =>
        h.1 (List.mem_map.mpr ⟨x, hx, heq.trans he.symm⟩)
      rw [List.eraseP_cons_of_pos (by simpa using he), List.filter_cons_of_neg (by simpa using he)]
      exact (List.filter_eq_self.mpr (by simpa using hrest)).symm
    · rw [List.eraseP_cons_of_neg (by simpa using he), List.filter_cons_of_pos (by simpa using he),
        ih h.2]

namespace Numbering

variable (h : d.Numbering)
include h

theorem bucket_lt (n : ℤ) : d.bucket n < d.buckets.length := Nat.mod_lt _ h.nonempty

theorem eq_of_number {e' : Entry} (he : e ∈ d.numbered) (he' : e' ∈ d.numbered)
    (hnumber : e.number = e'.number) : e = e' :=
  List.inj_on_of_nodup_map h.numbers he he' hnumber

theorem find?_eq_some_iff : d.find? n = some e ↔ e ∈ d.live ∧ e.number = n := by
  refine ⟨fun hfind => ⟨live_of_find? hfind, number_of_find? hfind⟩, ?_⟩
  rintro ⟨hlive, rfl⟩
  obtain ⟨es, hes, he⟩ := List.mem_flatten.mp hlive
  obtain ⟨i, hi⟩ := List.mem_iff_getElem?.mp hes
  have hmem : e ∈ d.bucketAt e.number :=
    mem_bucketAt_iff.mpr ⟨es, by rw [h.bucketed i es hi e he, hi], he⟩
  obtain ⟨found, hfound⟩ : ∃ found, d.find? e.number = some found := by
    refine Option.isSome_iff_exists.mp (List.find?_isSome.mpr ⟨e, hmem, ?_⟩)
    simp
  have heq : found = e := h.eq_of_number (List.mem_append_left _ (live_of_find? hfound))
    (List.mem_append_left _ hlive) (number_of_find? hfound)
  rw [hfound, heq]

theorem findClosing?_eq_some_iff : d.findClosing? n = some e ↔ e ∈ d.closing ∧ e.number = n := by
  refine ⟨fun hfind => ⟨List.mem_of_find?_eq_some hfind, by simpa using List.find?_some hfind⟩, ?_⟩
  rintro ⟨hclosing, rfl⟩
  obtain ⟨found, hfound⟩ : ∃ found, d.findClosing? e.number = some found := by
    refine Option.isSome_iff_exists.mp (List.find?_isSome.mpr ⟨e, hclosing, ?_⟩)
    simp
  have heq : found = e := h.eq_of_number (List.mem_append_right _ (List.mem_of_find?_eq_some hfound))
    (List.mem_append_right _ hclosing) (by simpa using List.find?_some hfound)
  rw [hfound, heq]

/-- No unit is live and being closed at once. -/
theorem findClosing?_eq_none (hlive : e ∈ d.live) : d.findClosing? e.number = none := by
  refine Option.eq_none_iff_forall_ne_some.mpr fun found hfound => ?_
  obtain ⟨hclosing, hnumber⟩ := h.findClosing?_eq_some_iff.mp hfound
  have hdisjoint := (List.nodup_append.mp (List.map_append ▸ h.numbers)).2.2
  exact hdisjoint _ (List.mem_map.mpr ⟨e, hlive, rfl⟩) _ (List.mem_map.mpr ⟨found, hclosing, rfl⟩)
    hnumber.symm

/-! ### What operations leave -/

theorem shrink (hlength : d'.buckets.length = d.buckets.length) (hbucketed : d'.Bucketed)
    (hsub : d'.numbered.Subperm d.numbered) : d'.Numbering where
  nonempty := hlength ▸ h.nonempty
  bucketed := hbucketed
  numbers := by
    obtain ⟨l, hperm, hl⟩ := hsub
    exact (hperm.map _).nodup_iff.mp ((hl.map _).nodup h.numbers)
  ids := by
    obtain ⟨l, hperm, hl⟩ := hsub
    exact (hperm.map _).nodup_iff.mp ((hl.map _).nodup h.ids)

theorem insert (hnumber : ∀ x ∈ d.numbered, x.number ≠ e.number)
    (hid : ∀ x ∈ d.numbered, x.id ≠ e.id) : (d.insert e).Numbering := by
  have hlength : (d.insert e).buckets.length = d.buckets.length := List.length_modify _ _ _
  have hperm : (d.insert e).numbered.Perm (e :: d.numbered) :=
    (live_insert_perm (h.bucket_lt e.number)).append_right d.closing
  refine ⟨hlength ▸ h.nonempty, ?_, ?_, ?_⟩
  · intro i es hes x hx
    rw [bucket_eq_of_length hlength]
    simp only [Directory.insert, List.getElem?_modify, Option.map_eq_map, Option.map_eq_some_iff] at hes
    obtain ⟨old, hold, rfl⟩ := hes
    split_ifs at hx with hi
    · rcases List.mem_append.mp hx with hx | hx
      · exact h.bucketed i old hold x hx
      · rw [List.mem_singleton.mp hx, hi]
    · exact h.bucketed i old hold x hx
  · refine (hperm.map _).nodup_iff.mpr (List.nodup_cons.mpr ⟨?_, h.numbers⟩)
    rintro hin
    obtain ⟨x, hx, heq⟩ := List.mem_map.mp hin
    exact hnumber x hx heq
  · refine (hperm.map _).nodup_iff.mpr (List.nodup_cons.mpr ⟨?_, h.ids⟩)
    rintro hin
    obtain ⟨x, hx, heq⟩ := List.mem_map.mp hin
    exact hid x hx heq

theorem takeForClose (htake : d.takeForClose n = some (e, d')) :
    d'.Numbering ∧ d'.closing = d.closing ++ [e] := by
  obtain ⟨hperm, -⟩ := live_takeForClose htake
  obtain ⟨hclosing, hlength, hentries⟩ := takeForClose_spec htake
  refine ⟨h.shrink hlength ?_ ?_, hclosing⟩
  · intro i es hes x hx
    obtain ⟨old, hold, hsub⟩ := hentries i es hes
    rw [bucket_eq_of_length hlength]
    exact h.bucketed i old hold x (hsub x hx)
  · refine List.Perm.subperm ?_
    rw [numbered, hclosing, ← List.append_assoc]
    refine (List.perm_append_singleton e _).trans ?_
    exact hperm.symm.append_right d.closing

theorem closing_destroyClosed (id : ℕ) :
    (d.destroyClosed id).closing = d.closing.filter (·.id ≠ id) := by
  have hids := h.ids
  rw [numbered, List.map_append] at hids
  exact eraseP_eq_filter id (List.nodup_append.mp hids).2.1

theorem destroyClosed (id : ℕ) : (d.destroyClosed id).Numbering :=
  h.shrink rfl h.bucketed (List.Sublist.subperm
    (List.Sublist.append_left List.eraseP_sublist d.live))

theorem takeAll : d.takeAll.2.Numbering := by
  refine h.shrink (List.length_map _) ?_ ?_
  · intro i es hes x hx
    simp only [Directory.takeAll, List.getElem?_map, Option.map_eq_some_iff] at hes
    obtain ⟨_, -, rfl⟩ := hes
    cases hx
  · rw [numbered, live_takeAll]
    exact (List.sublist_append_right d.live d.closing).subperm

end Numbering

theorem numbering_empty (buckets : ℕ) (newUnitBase : ℤ) : (empty buckets newUnitBase).Numbering := by
  have hnumbered : (empty buckets newUnitBase).numbered = [] := by simp [empty, numbered, live]
  refine ⟨by rw [empty, List.length_replicate]; omega, ?_, by simp [hnumbered], by simp [hnumbered]⟩
  intro i es hes e he
  simp only [empty, List.getElem?_replicate] at hes
  split_ifs at hes
  cases hes
  cases he

end Directory

end DataTransfer
