import Mathlib.Data.List.Nodup
import Mathlib.Data.List.TakeDrop

/-!
# Pages of a filtered list

A listing that is cut into pages before it is filtered shows, page by page, what
is left of each page.  That is a page of the filtered listing only when the
filter keeps everything before it.

**Results.**
* `filter_page_eq_iff`: when filtering a page gives the page of the filtered list.
* `page_getElem?_iff`: the one page, and the place on it, where an element is.
-/

namespace Systems

section Pages

variable {α : Type}

/-- Page `number` of a list, counted from 1. -/
def page (xs : List α) (number size : Nat) : List α :=
  (xs.drop ((number - 1) * size)).take size

/-- Where a page starts, computed with integers. -/
theorem start_eq
    {number : Nat}
    (hnumber : 1 ≤ number)
    {size : Nat} :
    ((number : Int) - 1) * size = ((number - 1) * size : Nat) := by
  rw [Int.natCast_mul, Int.natCast_sub hnumber]
  rfl

/-- What stands before a page, and what stands after it. -/
def pagesBefore (xs : List α) (number size : Nat) : List α :=
  xs.take ((number - 1) * size)

def pagesAfter (xs : List α) (number size : Nat) : List α :=
  xs.drop ((number - 1) * size + size)

theorem length_pagesBefore_le
    (xs : List α)
    (number size : Nat) :
    (pagesBefore xs number size).length ≤ (number - 1) * size :=
  List.length_take_le _ _

theorem pages_append
    (xs : List α)
    (number size : Nat) :
    pagesBefore xs number size ++ (page xs number size ++ pagesAfter xs number size) = xs := by
  unfold pagesBefore page pagesAfter
  rw [← List.drop_drop, List.take_append_drop, List.take_append_drop]

theorem filter_pages_append
    (p : α → Bool)
    (xs : List α)
    (number size : Nat) :
    (pagesBefore xs number size).filter p ++
      ((page xs number size).filter p ++ (pagesAfter xs number size).filter p) =
        xs.filter p := by
  rw [← List.filter_append, ← List.filter_append, pages_append]

variable {p : α → Bool} {xs : List α} {number size : Nat}

/-- When everything before a page is kept, the page starts where it did. -/
theorem page_filter_of_kept
    (hbefore : ∀ x ∈ pagesBefore xs number size, p x)
    (hlong : (number - 1) * size ≤ xs.length) :
    page (xs.filter p) number size = (page xs number size).filter p ++
      ((pagesAfter xs number size).filter p).take
        (size - ((page xs number size).filter p).length) := by
  have hkept : (pagesBefore xs number size).filter p = pagesBefore xs number size :=
    List.filter_eq_self.mpr hbefore
  have hlength : (pagesBefore xs number size).length = (number - 1) * size :=
    List.length_take_of_le hlong
  have hpage : ((page xs number size).filter p).length ≤ size :=
    Nat.le_trans (List.length_filter_le _ _) (List.length_take_le _ _)
  rw [page, ← filter_pages_append p xs number size, hkept,
    List.drop_left' hlength, List.take_append, List.take_of_length_le hpage]

theorem page_eq_nil_of_short
    (hshort : xs.length ≤ (number - 1) * size) :
    page xs number size = [] := by
  rw [page, List.drop_of_length_le hshort, List.take_nil]

/-- A page that is not full is the last one. -/
theorem pagesAfter_eq_nil
    (hpart : (page xs number size).length < size) :
    pagesAfter xs number size = [] := by
  rw [page, List.length_take, List.length_drop] at hpart
  exact List.drop_of_length_le (by omega)

/-- When something before a page is dropped, the page of the filtered list starts
later than the page, so that both are empty. -/
theorem page_filter_of_dropped
    (hnodup : xs.Nodup)
    (hsize : 0 < size)
    (hbefore : ¬∀ x ∈ pagesBefore xs number size, p x)
    (heq : (page xs number size).filter p = page (xs.filter p) number size) :
    (xs.filter p).length ≤ (number - 1) * size ∧ ∀ x ∈ page xs number size, ¬p x := by
  have hshorter : ((pagesBefore xs number size).filter p).length < (number - 1) * size := by
    refine Nat.lt_of_lt_of_le ?_ (length_pagesBefore_le xs number size)
    exact List.length_filter_lt_length_iff_exists.mpr (by simpa using hbefore)
  cases hfirst : (page xs number size).filter p with
  | nil =>
      rw [hfirst, page, eq_comm, List.take_eq_nil_iff, List.drop_eq_nil_iff] at heq
      exact ⟨heq.resolve_left (by omega), List.filter_eq_nil_iff.mp hfirst⟩
  | cons y ys =>
      -- One entry would stand at two positions of the filtered list.
      have hpage : (xs.filter p)[(number - 1) * size]? = some y := by
        have hhead : (page (xs.filter p) number size).head? = some y := by
          rw [← heq, hfirst, List.head?_cons]
        rwa [page, List.head?_take, if_neg (by omega), List.head?_drop] at hhead
      have hrank : (xs.filter p)[((pagesBefore xs number size).filter p).length]? = some y := by
        rw [← filter_pages_append p xs number size, hfirst]
        simp
      obtain ⟨hlt, -⟩ := List.getElem?_eq_some_iff.mp hrank
      have hsame := (List.getElem?_inj hlt (hnodup.filter p)).mp (hrank.trans hpage.symm)
      omega

/-- A page of the filtered list that is kept whole, or is the last one. -/
theorem filter_page_of_kept
    (hbefore : ∀ x ∈ pagesBefore xs number size, p x)
    (hpage : (∀ x ∈ page xs number size, p x) ∨ ∀ x ∈ pagesAfter xs number size, ¬p x) :
    (page xs number size).filter p = page (xs.filter p) number size := by
  rcases Nat.le_total xs.length ((number - 1) * size) with hshort | hlong
  · rw [page_eq_nil_of_short hshort,
      page_eq_nil_of_short (Nat.le_trans (List.length_filter_le p xs) hshort), List.filter_nil]
  · rw [page_filter_of_kept hbefore hlong, List.self_eq_append_right]
    rcases hpage with hall | hnone
    · rw [List.filter_eq_self.mpr hall]
      rcases Nat.lt_or_ge (page xs number size).length size with hpart | hfull
      · rw [pagesAfter_eq_nil hpart, List.filter_nil, List.take_nil]
      · rw [Nat.sub_eq_zero_of_le hfull, List.take_zero]
    · rw [List.filter_eq_nil_iff.mpr hnone, List.take_nil]

/-- Past the end of the filtered list nothing is left. -/
theorem filter_page_of_none
    (hlength : (xs.filter p).length ≤ (number - 1) * size)
    (hpage : ∀ x ∈ page xs number size, ¬p x) :
    (page xs number size).filter p = page (xs.filter p) number size := by
  rw [List.filter_eq_nil_iff.mpr hpage, page_eq_nil_of_short hlength]

/-- **When filtering a page gives the page of the filtered list.** -/
theorem filter_page_eq_iff
    (p : α → Bool)
    (hnodup : xs.Nodup)
    (number : Nat)
    (hsize : 0 < size) :
    (page xs number size).filter p = page (xs.filter p) number size ↔
      ((∀ x ∈ pagesBefore xs number size, p x) ∧
        ((∀ x ∈ page xs number size, p x) ∨ ∀ x ∈ pagesAfter xs number size, ¬p x)) ∨
      ((xs.filter p).length ≤ (number - 1) * size ∧ ∀ x ∈ page xs number size, ¬p x) := by
  refine ⟨fun heq => ?_, ?_⟩
  · by_cases hbefore : ∀ x ∈ pagesBefore xs number size, p x
    · refine .inl ⟨hbefore, ?_⟩
      rcases Nat.le_total xs.length ((number - 1) * size) with hshort | hlong
      · rw [page_eq_nil_of_short hshort]
        exact .inl (by simp)
      · rw [page_filter_of_kept hbefore hlong, List.self_eq_append_right,
          List.take_eq_nil_iff] at heq
        rcases heq with hfull | hnone
        · refine .inl (List.filter_eq_self.mp (List.filter_sublist.eq_of_length_le ?_))
          have hpage : (page xs number size).length ≤ size := List.length_take_le _ _
          omega
        · exact .inr (List.filter_eq_nil_iff.mp hnone)
    · exact .inr (page_filter_of_dropped hnodup hsize hbefore heq)
  · rintro (⟨hbefore, hpage⟩ | ⟨hlength, hpage⟩)
    · exact filter_page_of_kept hbefore hpage
    · exact filter_page_of_none hlength hpage

theorem getElem?_page_eq_some_iff
    {i : Nat}
    {x : α} :
    (page xs number size)[i]? = some x ↔
      i < size ∧ xs[(number - 1) * size + i]? = some x := by
  rw [page, List.getElem?_take]
  by_cases hi : i < size
  · rw [if_pos hi, List.getElem?_drop, and_iff_right hi]
  · rw [if_neg hi]
    exact iff_of_false (by simp) fun h => hi h.1

/-- **The one page where an element is**, and its place there. -/
theorem page_getElem?_iff
    (hnodup : xs.Nodup)
    (hsize : 0 < size)
    (hnumber : 1 ≤ number)
    {place i : Nat}
    {x : α}
    (hx : xs[place]? = some x) :
    (page xs number size)[i]? = some x ↔ number = place / size + 1 ∧ i = place % size := by
  rw [getElem?_page_eq_some_iff]
  constructor
  · rintro ⟨hi, hplace⟩
    obtain ⟨hlt, -⟩ := List.getElem?_eq_some_iff.mp hx
    have hsame : place = size * (number - 1) + i := by
      rw [Nat.mul_comm]
      exact (List.getElem?_inj hlt hnodup).mp (hx.trans hplace.symm)
    have hquot : place / size = number - 1 := by
      rw [hsame, Nat.mul_add_div hsize, Nat.div_eq_of_lt hi, Nat.add_zero]
    have hrem : place % size = i := by
      rw [hsame, Nat.mul_add_mod, Nat.mod_eq_of_lt hi]
    omega
  · rintro ⟨rfl, rfl⟩
    refine ⟨Nat.mod_lt _ hsize, ?_⟩
    rwa [Nat.add_sub_cancel, Nat.mul_comm, Nat.div_add_mod]

end Pages

end Systems
