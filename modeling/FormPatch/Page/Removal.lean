import FormPatch.Page

/-!
# Taking keys off their pages

A key is taken off the page that holds it. Above the lowest pages, the next smaller or next greater
key is pulled up from below in its place. No page on the way down stays small: before it is entered,
a small page gets a key from a page beside it, or is joined with one. When the key turns out not to
be there, all keys stay where they were, although the pages that were entered count as edited.

A form that is taken out of a store takes its reference off the pages in this way, and the other
references stay on them in order.
-/

namespace FormPatch

namespace Page

variable {κ γ : Type}

/-- Which key is taken off. -/
inductive Target (κ : Type) where
  /-- The one that compares equal to this one. -/
  | key (key : κ)
  /-- The least one. -/
  | least
  /-- The greatest one. -/
  | greatest

/-- A page after a removal. -/
structure Removal (κ γ : Type) where
  /-- What is left. -/
  page : Page κ γ
  /-- The key that was taken off, if it was there. -/
  taken : Option κ

/-- How many keys of a page come before a target. -/
def rankOf [Ord κ] (page : Page κ γ) : Target κ → Nat
  | .key key => page.rank key
  | .least => 0
  | .greatest => page.keys.length

/-- Whether a target is on the page itself, where other pages lie below. -/
def holdsTarget [Ord κ] (page : Page κ γ) : Target κ → Bool
  | .key key => page.holds key
  | _ => false

/-- The removal that found nothing. -/
def keep (edit : Nat) (page : Page κ γ) : Removal κ γ := ⟨page.renew edit, none⟩

/-- Takes a target off one of the lowest pages. -/
def takeLowest [Ord κ] (edit : Nat) (target : Target κ) (page : Page κ γ) : Removal κ γ :=
  let place? : Option Nat :=
    match target with
    | .key key => if page.holds key then some (page.rank key) else none
    | .least => some 0
    | .greatest => some (page.keys.length - 1)
  match place? with
  | none => page.keep edit
  | some place => ⟨⟨edit, page.keys.eraseIdx place, []⟩, page.keys[place]?⟩

section Below

variable (take : Target κ → Page κ γ → Removal κ γ) (edit : Nat)

/-- Takes the key at a place off a page, given how a target is taken off a page below. The end of a
page below takes its place. -/
def pullUp (place lower : Nat) (nearest : Target κ) (page : Page κ (Page κ γ)) :
    Removal κ (Page κ γ) :=
  match page.below[lower]? with
  | none => page.keep edit
  | some child =>
    match take nearest child with
    | ⟨_, none⟩ => page.keep edit
    | ⟨left, some key⟩ =>
      ⟨⟨edit, page.keys.set place key, page.below.set lower left⟩, page.keys[place]?⟩

/-- Takes a target off the page that comes from joining the two pages around the key at a place. If
the target is not there, they stay apart. -/
def takeJoined (place : Nat) (target : Target κ) (page : Page κ (Page κ γ)) :
    Removal κ (Page κ γ) :=
  match page.below[place]?, page.keys[place]?, page.below[place + 1]? with
  | some left, some middle, some right =>
    match take target ⟨edit, left.keys ++ middle :: right.keys, left.below ++ right.below⟩ with
    | ⟨_, none⟩ => page.keep edit
    | ⟨joined, some key⟩ =>
      ⟨⟨edit, page.keys.eraseIdx place, (page.below.eraseIdx place).set place joined⟩, some key⟩
  | _, _, _ => page.keep edit

/-- Takes a target off the page behind the key at a place, after this page got that key, and with it
the last page below the one before. In return the page before gives its last key; if the target is
not there, everything goes back. -/
def takeBehind (place : Nat) (target : Target κ) (page : Page κ (Page κ γ)) :
    Removal κ (Page κ γ) :=
  match page.below[place]?, page.keys[place]?, page.below[place + 1]? with
  | some left, some middle, some right =>
    let filled : Page κ γ :=
      ⟨edit, middle :: right.keys, left.below.getLast?.toList ++ right.below⟩
    match take target filled, left.keys.getLast? with
    | ⟨after, some key⟩, some last =>
      let before : Page κ γ := ⟨edit, left.keys.dropLast, left.below.dropLast⟩
      ⟨⟨edit, page.keys.set place last, (page.below.set place before).set (place + 1) after⟩,
        some key⟩
    | ⟨after, _⟩, _ =>
      let back : Page κ γ := ⟨edit, after.keys.tail, after.below.tail⟩
      ⟨⟨edit, page.keys, (page.below.set place (left.renew edit)).set (place + 1) back⟩, none⟩
  | _, _, _ => page.keep edit

/-- Takes a target off the page before the key at a place, after this page got that key, and with it
the first page below the one behind. In return the page behind gives its first key; if the target is
not there, everything goes back. -/
def takeBefore (place : Nat) (target : Target κ) (page : Page κ (Page κ γ)) :
    Removal κ (Page κ γ) :=
  match page.below[place]?, page.keys[place]?, page.below[place + 1]? with
  | some left, some middle, some right =>
    let filled : Page κ γ :=
      ⟨edit, left.keys ++ [middle], left.below ++ right.below.head?.toList⟩
    match take target filled, right.keys with
    | ⟨before, some key⟩, first :: others =>
      let after : Page κ γ := ⟨edit, others, right.below.tail⟩
      ⟨⟨edit, page.keys.set place first, (page.below.set place before).set (place + 1) after⟩,
        some key⟩
    | ⟨before, _⟩, _ =>
      let back : Page κ γ := ⟨edit, before.keys.dropLast, before.below.dropLast⟩
      ⟨⟨edit, page.keys, (page.below.set place back).set (place + 1) (right.renew edit)⟩, none⟩
  | _, _, _ => page.keep edit

/-- Takes a target off the page below at a place. -/
def takeBelow (place : Nat) (target : Target κ) (page : Page κ (Page κ γ)) :
    Removal κ (Page κ γ) :=
  match page.below[place]? with
  | none => page.keep edit
  | some child =>
    let after := take target child
    ⟨⟨edit, page.keys, page.below.set place after.page⟩, after.taken⟩

/-- Whether a page lies at a place and can give a key away. -/
def canGive (page : Page κ (Page κ γ)) (place : Nat) : Bool :=
  page.below[place]?.any (!·.isSmall)

/-- Takes a target off a page with others below. -/
def takeInner [Ord κ] (target : Target κ) (page : Page κ (Page κ γ)) : Removal κ (Page κ γ) :=
  let place := page.rankOf target
  if page.holdsTarget target then
    if page.canGive place then page.pullUp take edit place place .greatest
    else if page.canGive (place + 1) then page.pullUp take edit place (place + 1) .least
    else page.takeJoined take edit place target
  else if page.canGive place then page.takeBelow take edit place target
  else if 0 < place ∧ page.canGive (place - 1) then page.takeBehind take edit (place - 1) target
  else if page.canGive (place + 1) then page.takeBefore take edit place target
  else if place < page.keys.length then page.takeJoined take edit place target
  else page.takeJoined take edit (place - 1) target

end Below

/-- Takes a target off a page or one below it. -/
def erase [Ord κ] (edit : Nat) :
    (height : Nat) → Target κ → Level κ height → Removal κ (Below κ height)
  | 0, target, page => page.takeLowest edit target
  | height + 1, target, page => takeInner (erase edit height) edit target page

end Page

namespace Pages

variable {κ : Type}

/-- The pages without a page above all others that holds no key and leads to one page only. -/
def settle : (height : Nat) → Level κ height → Pages κ
  | height + 1, ⟨_, [], [top]⟩ => ⟨height, top⟩
  | height, top => ⟨height, top⟩

/-- Takes a key off its page. -/
def erase [Ord κ] (edit : Nat) (key : κ) (pages : Pages κ) : Pages κ :=
  settle pages.height (Page.erase edit pages.height (.key key) pages.top).page

end Pages

end FormPatch
