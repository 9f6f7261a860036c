/-!
# Pages of keys

The keys of a map lie on pages. A page holds some keys in order, and before, between and behind
them lie the pages below; the lowest pages all lie at one depth. An edit makes a new page of every
page on the way to its key and leaves all others as they are, so that two versions of one map share
the pages which no edit in between has touched. Each page carries the number of the edit that made
it.

The references of a store are kept in this way, so iterating over a store lists the keys on its
pages, and comparing a store with an earlier version of it skips the pages that both share. Behind
every history of a store its pages list its references in order.
-/

namespace FormPatch

/-- Some keys in order, and what lies before, between and behind them. -/
structure Page (κ γ : Type) where
  /-- The edit that made the page. -/
  edit : Nat
  /-- The keys. -/
  keys : List κ
  /-- What lies below: nothing, or one item more than there are keys. -/
  below : List γ

/-- What lies below the pages of a height: nothing below the lowest ones. -/
def Below (κ : Type) : Nat → Type
  | 0 => Empty
  | height + 1 => Page κ (Below κ height)

/-- A page of a height with all pages below it. -/
abbrev Level (κ : Type) (height : Nat) : Type := Page κ (Below κ height)

namespace Page

variable {κ γ : Type}

/-- The most keys that a page holds. -/
def capacity : Nat := 64

/-- How many keys a page starts with when a full one is split. -/
def half : Nat := 32

/-- Whether a page has too few keys to give one away. -/
def isSmall (page : Page κ γ) : Bool := page.keys.length < half

/-- The page as an edit leaves it that only leads through it. -/
def renew (edit : Nat) (page : Page κ γ) : Page κ γ := ⟨edit, page.keys, page.below⟩

section Order

variable [Ord κ]

/-- How many keys come before a key. The way to a key that the page does not hold goes on at this
place below. -/
def rank (page : Page κ γ) (key : κ) : Nat :=
  (page.keys.takeWhile fun known => compare known key == .lt).length

/-- Whether the page holds a key, up to keys that compare equal. -/
def holds (page : Page κ γ) (key : κ) : Bool :=
  page.keys.any fun known => compare known key == .eq

/-- Goes down to the page that holds a key, or to where it would lie. -/
def visit (edit : Nat) (key : κ) : (height : Nat) → Level κ height → Level κ height
  | 0, page => page.renew edit
  | height + 1, page =>
    if page.holds key then page.renew edit
    else ⟨edit, page.keys, page.below.modify (page.rank key) (visit edit key height)⟩

end Order

/-- What becomes of a page that gains a key. -/
inductive Growth (κ γ : Type) where
  /-- It stays one page. -/
  | whole (page : Page κ γ)
  /-- It falls apart into two pages and a key between them. -/
  | split (left : Page κ γ) (middle : κ) (right : Page κ γ)

/-- Splits a page that holds more than it can. -/
def grow (page : Page κ γ) : Growth κ γ :=
  if page.keys.length ≤ capacity then .whole page
  else
    match page.keys.drop half with
    | [] => .whole page
    | middle :: right =>
      .split ⟨page.edit, page.keys.take half, page.below.take (half + 1)⟩ middle
        ⟨page.edit, right, page.below.drop (half + 1)⟩

/-- Puts a key on a page with others below, given how it is put on one of these. A page below that
splits gives the key in its middle to this one. -/
def insertInner [Ord κ] (insert : Page κ γ → Growth κ γ) (edit : Nat) (key : κ)
    (page : Page κ (Page κ γ)) : Growth κ (Page κ γ) :=
  let place := page.rank key
  if page.holds key then .whole ⟨edit, page.keys.set place key, page.below⟩
  else
    match page.below[place]? with
    | none => .whole (page.renew edit)
    | some lower =>
      match insert lower with
      | .whole lower => .whole ⟨edit, page.keys, page.below.set place lower⟩
      | .split left middle right =>
        grow
          ⟨edit, page.keys.insertIdx place middle,
            (page.below.set place left).insertIdx (place + 1) right⟩

/-- Puts a key on its page, in the place of one that compares equal. A new key comes onto one of the
lowest pages. -/
def insert [Ord κ] (edit : Nat) (key : κ) :
    (height : Nat) → Level κ height → Growth κ (Below κ height)
  | 0, page =>
    let place := page.rank key
    if page.holds key then .whole ⟨edit, page.keys.set place key, []⟩
    else grow ⟨edit, page.keys.insertIdx place key, []⟩
  | height + 1, page => insertInner (insert edit key height) edit key page

end Page

/-- All pages of a map. -/
structure Pages (κ : Type) where
  /-- How deep the lowest pages lie. -/
  height : Nat
  /-- The page above all others. -/
  top : Level κ height

namespace Pages

variable {κ : Type}

/-- The one page of a map without keys. -/
def empty : Pages κ := ⟨0, 0, [], []⟩

instance : Inhabited (Pages κ) := ⟨empty⟩

variable [Ord κ]

/-- Goes down to a key. -/
def visit (edit : Nat) (key : κ) (pages : Pages κ) : Pages κ :=
  ⟨pages.height, Page.visit edit key pages.height pages.top⟩

/-- Puts a key on its page. If the page above all others splits, a new one comes above it. -/
def insert (edit : Nat) (key : κ) (pages : Pages κ) : Pages κ :=
  match Page.insert edit key pages.height pages.top with
  | .whole top => ⟨pages.height, top⟩
  | .split left middle right => ⟨pages.height + 1, edit, [middle], [left, right]⟩

/-- The pages of keys that one edit puts in, one after the other. -/
def ofKeys (edit : Nat) (keys : List κ) : Pages κ :=
  keys.foldl (fun pages key => pages.insert edit key) empty

end Pages

end FormPatch
