import Mathlib.Data.List.Basic

/-!
# The ends of a stable sort

A stable sort keeps the order of what its comparison holds to be equal.  So what
comes first is the first of the least elements of the list, and what comes last
is the last of the greatest ones.

* `filter_mergeSort`: **equal elements keep their order**.
* `head?_mergeSort`, `getLast?_mergeSort`: the two ends.
-/

namespace FullstackSvc.Store

variable {α : Type} {le : α → α → Bool} {l : List α} {p : α → Bool}

/-- A comparison that a list can be sorted by. -/
structure TotalPreorder (le : α → α → Bool) : Prop where
  trans : ∀ a b c, le a b = true → le b c = true → le a c = true
  total : ∀ a b, (le a b || le b a) = true

/-- The elements before which no other has to come. -/
def leasts (le : α → α → Bool) (l : List α) : List α := l.filter fun a => l.all fun b => le a b

/-- The elements after which no other has to come. -/
def greatests (le : α → α → Bool) (l : List α) : List α := l.filter fun a => l.all fun b => le b a

/-- **Equal elements keep their order.** -/
theorem filter_mergeSort (hle : TotalPreorder le)
    (hp : ∀ a ∈ l, ∀ b ∈ l, p a = true → p b = true → le a b = true) :
    (l.mergeSort le).filter p = l.filter p := by
  have hpair : (l.filter p).Pairwise fun a b => le a b = true := by
    refine List.pairwise_of_forall_mem_list fun a ha b hb => ?_
    rw [List.mem_filter] at ha hb
    exact hp a ha.1 b hb.1 ha.2 hb.2
  have hsub : (l.filter p).Sublist (l.mergeSort le) :=
    List.sublist_mergeSort hle.trans hle.total hpair List.filter_sublist
  have hfilter := hsub.filter p
  rw [List.filter_filter] at hfilter
  simp only [Bool.and_self] at hfilter
  refine (hfilter.eq_of_length ?_).symm
  exact ((List.mergeSort_perm l le).filter p).length_eq.symm

theorem pairwise_mergeSort (hle : TotalPreorder le) (l : List α) :
    (l.mergeSort le).Pairwise fun a b => le a b = true :=
  List.pairwise_mergeSort hle.trans hle.total l

theorem TotalPreorder.refl (hle : TotalPreorder le) (a : α) : le a a = true := by
  have := hle.total a a
  rwa [Bool.or_self] at this

/-- **What comes first** is the first of the least elements. -/
theorem head?_mergeSort (hle : TotalPreorder le) (l : List α) :
    (l.mergeSort le).head? = (leasts le l).head? := by
  have hfilter : (l.mergeSort le).filter (fun a => l.all fun b => le a b) = leasts le l := by
    refine filter_mergeSort hle fun a _ b hb ha _ => ?_
    exact List.all_eq_true.mp ha b hb
  cases hs : l.mergeSort le with
  | nil => rw [← hfilter, hs]; rfl
  | cons a t =>
    have hsorted := pairwise_mergeSort hle l
    rw [hs, List.pairwise_cons] at hsorted
    have hleast : (l.all fun b => le a b) = true := by
      refine List.all_eq_true.mpr fun b hb => ?_
      have hmem : b ∈ l.mergeSort le := List.mem_mergeSort.mpr hb
      rw [hs] at hmem
      rcases List.mem_cons.mp hmem with rfl | hmem
      · exact hle.refl b
      · exact hsorted.1 b hmem
    have hhead : (a :: t).filter (fun a => l.all fun b => le a b) =
        a :: t.filter fun a => l.all fun b => le a b := List.filter_cons_of_pos hleast
    rw [← hfilter, hs, hhead]
    rfl

/-- **What comes last** is the last of the greatest elements. -/
theorem getLast?_mergeSort (hle : TotalPreorder le) (l : List α) :
    (l.mergeSort le).getLast? = (greatests le l).getLast? := by
  have hfilter : (l.mergeSort le).filter (fun a => l.all fun b => le b a) = greatests le l := by
    refine filter_mergeSort hle fun a ha b _ _ hb => ?_
    exact List.all_eq_true.mp hb a ha
  rcases List.eq_nil_or_concat (l.mergeSort le) with hs | ⟨t, a, hs⟩
  · rw [← hfilter, hs]
    rfl
  · have hsorted := pairwise_mergeSort hle l
    rw [hs, List.concat_eq_append, List.pairwise_append] at hsorted
    have hgreatest : (l.all fun b => le b a) = true := by
      refine List.all_eq_true.mpr fun b hb => ?_
      have hmem : b ∈ l.mergeSort le := List.mem_mergeSort.mpr hb
      rw [hs, List.concat_eq_append] at hmem
      rcases List.mem_append.mp hmem with hmem | hmem
      · exact hsorted.2.2 b hmem a (List.mem_singleton_self a)
      · rw [List.mem_singleton.mp hmem]
        exact hle.refl a
    have hlast : [a].filter (fun a => l.all fun b => le b a) = [a] :=
      List.filter_cons_of_pos hgreatest
    rw [← hfilter, hs, List.concat_eq_append, List.filter_append, hlast, List.getLast?_concat,
      List.getLast?_concat]

end FullstackSvc.Store
