import TagCatalog.Number.Word

/-!
# Pages

A position in a long list of rows: pages of one size, counted from zero. The
number of the first row on a page is the product of both, or the greatest
word when the product is too large.

## Main definitions

* `PageSize`: How many rows a page has, never none.
* `Page`: A page of a given size.
* `Page.offset`: The number of the first row on a page.
* `Page.holding`: The page of a given size on which a row stands.
-/

namespace TagCatalog

/-- How many rows a page has, never none. -/
structure PageSize where
  rows : UInt64
  pos : rows ≠ 0
  deriving DecidableEq, Repr

namespace PageSize

/-- The page size of a given number of rows. -/
def ofWord? (rows : UInt64) : Option PageSize :=
  if h : rows = 0 then none else some ⟨rows, h⟩

end PageSize

/-- A page, counted from zero. -/
structure Page where
  index : UInt64
  size : PageSize
  deriving DecidableEq, Repr

namespace Page

/-- The number of the first row on a page. -/
def offset (page : Page) : UInt64 :=
  Word.saturate (page.index.toNat * page.size.rows.toNat)

/-- The page of a given size on which a row stands. -/
def holding (row : UInt64) (size : PageSize) : Page :=
  ⟨row / size.rows, size⟩

/-- The page after this one, if there is one. -/
def next (page : Page) : Page :=
  { page with index := Word.saturate (page.index.toNat + 1) }

/-- The page before this one, if there is one. -/
def previous (page : Page) : Page :=
  { page with index := Word.saturate (page.index.toNat - 1) }

/-- Pages of another size, with the first row still on the page. -/
def resize (page : Page) (size : PageSize) : Page :=
  holding page.offset size

end Page

end TagCatalog
