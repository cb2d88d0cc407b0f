import Mathlib.Algebra.Group.Nat.Defs
import TagCatalog.Query.Page

/-!
# Pages and Row Numbers

What becomes of a page when it is known by its first row only.

An address names a page by the number of its first row. That number is the
product of index and size, cut off at the greatest word. Dividing by the size
gives the index back as long as nothing was cut off. Where something was, all
such pages fall together into the last one that can be named.

The division goes the other way round, too. A row is given, and the page is
looked for on which it stands. Dividing never cuts anything off, so whatever the
row and the size are, the first row of that page can be numbered and the row is
on it. The first row is the row itself only if the size divides it, and
otherwise an earlier one. Pages that are resized again and again can therefore
only move towards the beginning.

## Main definitions

* `Page.IsNumbered`: The first row can be numbered.
* `Page.Shows`: A row is on a page.

## Theorems

* `toNat_offset`, `isNumbered_iff`, `offset_eq_zero_iff`: The number of the first row.
* `holding_isNumbered`, `holding_shows`: The page on which a row stands.
* `holding_offset`, `holding_offset_eq_iff`: The page that is found again by its
  first row.
* `offset_holding_le`, `offset_holding_of_dvd`: The first row of the page on which
  a row stands.
* `shows_offset_iff`: Whether a first row is still shown when the size is another
  one and the index is the same.
* `offset_foldl_resize_le`, `offset_foldl_resize_of_dvd`: Pages that are resized
  several times.
-/

namespace TagCatalog

theorem PageSize.toNat_rows_pos (size : PageSize) : 0 < size.rows.toNat := by
  refine Nat.pos_of_ne_zero fun h => size.pos ?_
  exact UInt64.toNat_inj.mp h

namespace Page

/-- The first row of a page can be numbered. -/
def IsNumbered (page : Page) : Prop := page.index.toNat * page.size.rows.toNat < 2 ^ 64

/-- A row is on a page: the page does not begin behind it, and the next one does. -/
structure Shows (page : Page) (row : UInt64) : Prop where
  first_le : page.offset.toNat ≤ row.toNat
  lt_next : row.toNat < page.offset.toNat + page.size.rows.toNat

theorem toNat_offset (page : Page) :
    page.offset.toNat = min (page.index.toNat * page.size.rows.toNat) (2 ^ 64 - 1) :=
  Word.toNat_saturate _

/-- Nothing is cut off exactly when the first row can be numbered. -/
theorem isNumbered_iff (page : Page) :
    page.IsNumbered ↔ page.offset.toNat = page.index.toNat * page.size.rows.toNat := by
  rw [IsNumbered, toNat_offset]
  omega

/-- Only the first page begins with the first row. -/
theorem offset_eq_zero_iff (page : Page) : page.offset = 0 ↔ page.index = 0 := by
  have hpos := page.size.toNat_rows_pos
  rw [← UInt64.toNat_inj, ← UInt64.toNat_inj, toNat_offset, UInt64.toNat_zero]
  constructor
  · intro h
    have hproduct : page.index.toNat * page.size.rows.toNat = 0 := by omega
    rcases Nat.mul_eq_zero.mp hproduct with hindex | hsize
    · exact hindex
    · omega
  · intro h
    rw [h, Nat.zero_mul, Nat.zero_min]

section Holding

variable (row : UInt64) (size : PageSize)

theorem toNat_index_holding : (holding row size).index.toNat = row.toNat / size.rows.toNat :=
  UInt64.toNat_div _ _

/-- The row that a page is opened for is on it, so its first row is no later one. -/
theorem holding_isNumbered : (holding row size).IsNumbered := by
  rw [IsNumbered, toNat_index_holding]
  exact Nat.lt_of_le_of_lt (Nat.div_mul_le_self _ _) row.toNat_lt

theorem toNat_offset_holding :
    (holding row size).offset.toNat = row.toNat / size.rows.toNat * size.rows.toNat := by
  rw [(isNumbered_iff _).mp (holding_isNumbered row size), toNat_index_holding]
  rfl

/-- Whatever the row and the size are, the row is on the page. -/
theorem holding_shows : (holding row size).Shows row where
  first_le := by
    rw [toNat_offset_holding]
    exact Nat.div_mul_le_self _ _
  lt_next := by
    rw [toNat_offset_holding]
    exact Nat.lt_div_mul_add size.toNat_rows_pos

theorem offset_holding_le : (holding row size).offset ≤ row :=
  UInt64.le_iff_toNat_le.mpr (holding_shows row size).first_le

/-- A row that the size divides is the first one of its page. -/
theorem offset_holding_of_dvd (h : size.rows.toNat ∣ row.toNat) :
    (holding row size).offset = row := by
  rw [← UInt64.toNat_inj, toNat_offset_holding, Nat.div_mul_cancel h]

end Holding

/-- A page is found again by its first row if the row can be numbered. -/
theorem holding_offset (page : Page) :
    Page.holding page.offset page.size =
      ⟨if page.index.toNat * page.size.rows.toNat < 2 ^ 64 then page.index
        else Word.greatest / page.size.rows, page.size⟩ := by
  have hpos := page.size.toNat_rows_pos
  have hoffset := page.toNat_offset
  unfold Page.holding
  rw [Page.mk.injEq]
  refine ⟨UInt64.toNat_inj.mp ?_, rfl⟩
  split
  · next hfits =>
    rw [Nat.min_eq_left (by omega)] at hoffset
    rw [UInt64.toNat_div, hoffset, Nat.mul_div_cancel _ hpos]
  · next hfits =>
    -- What is divided now is the greatest word, whatever the index was.
    rw [Nat.min_eq_right (by omega)] at hoffset
    rw [UInt64.toNat_div, UInt64.toNat_div, hoffset]
    rfl

/-- Otherwise another page is found, for the one that is found can be numbered. -/
theorem holding_offset_eq_iff (page : Page) :
    Page.holding page.offset page.size = page ↔ page.IsNumbered := by
  constructor
  · intro h
    rw [← h]
    exact holding_isNumbered page.offset page.size
  · intro h
    rw [IsNumbered] at h
    rw [holding_offset, if_pos h]

/-- When the page with the same index and another size shows the first row of a
    page. The row may not lie behind that page, and the page may not be one of more
    rows, which begins later. The exceptions are the pages at either end, of index
    zero or at the greatest row, that begin with the same row in any size. -/
theorem shows_offset_iff (page : Page) (size : PageSize) (h : page.IsNumbered) :
    (⟨page.index, size⟩ : Page).Shows page.offset ↔
      page.offset.toNat < (page.index.toNat + 1) * size.rows.toNat ∧
        (size.rows.toNat ≤ page.size.rows.toNat ∨ page.index.toNat = 0 ∨
          page.offset = Word.greatest) := by
  have hfirst := (isNumbered_iff page).mp h
  have hgreatest : page.offset = Word.greatest ↔ page.offset.toNat = 2 ^ 64 - 1 :=
    UInt64.toNat_inj.symm
  have hother := toNat_offset ⟨page.index, size⟩
  have hpos := size.toNat_rows_pos
  rw [IsNumbered] at h
  -- How the two products lie to each other is all that is not linear.
  have hless : size.rows.toNat ≤ page.size.rows.toNat →
      page.index.toNat * size.rows.toNat ≤ page.index.toNat * page.size.rows.toNat :=
    Nat.mul_le_mul_left page.index.toNat
  have hmore : page.size.rows.toNat < size.rows.toNat → 0 < page.index.toNat →
      page.index.toNat * page.size.rows.toNat < page.index.toNat * size.rows.toNat :=
    fun hsize hindex => Nat.mul_lt_mul_of_pos_left hsize hindex
  have hzero : page.index.toNat = 0 → page.index.toNat * size.rows.toNat = 0 := by
    intro hindex
    rw [hindex, Nat.zero_mul]
  rw [Nat.succ_mul, hgreatest]
  simp only at hother
  generalize page.index.toNat * size.rows.toNat = other at *
  generalize page.index.toNat * page.size.rows.toNat = first at *
  constructor
  · rintro ⟨hle, hlt⟩
    simp only at hlt
    omega
  · rintro ⟨hlt, hsize⟩
    refine ⟨?_, ?_⟩
    · omega
    · simp only
      omega

/-- Resizing a page never moves it towards the end. -/
theorem offset_foldl_resize_le (page : Page) (sizes : List PageSize) :
    (sizes.foldl resize page).offset ≤ page.offset := by
  induction sizes generalizing page with
  | nil => exact UInt64.le_refl _
  | cons size sizes ih =>
    rw [List.foldl_cons]
    exact UInt64.le_trans (ih (page.resize size)) (offset_holding_le page.offset size)

/-- Pages of sizes that divide the first row all begin with it. -/
theorem offset_foldl_resize_of_dvd (page : Page) (sizes : List PageSize)
    (h : ∀ size ∈ sizes, size.rows.toNat ∣ page.offset.toNat) :
    (sizes.foldl resize page).offset = page.offset := by
  induction sizes generalizing page with
  | nil => rfl
  | cons size sizes ih =>
    -- The first resizing leaves the row alone, so the other sizes divide it still.
    have hfirst : (page.resize size).offset = page.offset :=
      offset_holding_of_dvd page.offset size (h size List.mem_cons_self)
    rw [List.foldl_cons, ih (page.resize size), hfirst]
    intro other hother
    rw [hfirst]
    exact h other (List.mem_cons_of_mem size hother)

end Page

end TagCatalog
