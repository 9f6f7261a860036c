import FormPatch.Page

/-!
# Comparing versions that share pages

Two versions of one map hold the same if they do so key by key. Where both of them come to a page
that they share, nothing on it or below it is looked at: it is the same whatever it holds, even a
value that is not equal to itself. A shared page is one with the same first key, made by the same
edit.

By this comparison an edit counts as leaving a store unchanged: a patch that finds no target leads
to a version that holds the same as the one before, whatever numbers its forms hold.

Main statement: a version agrees with itself without a look at what its keys lead to.
-/

namespace FormPatch

/-- A part of a map: a key, or a page and the parts that lie on it and below it, in order. -/
inductive Outline (κ : Type) where
  /-- A key. -/
  | key (key : κ)
  /-- A page: the edit that made it, its own first key and its parts. -/
  | page (edit : Nat) (first : κ) (parts : List (Outline κ))

/-- What lies below a page, with its keys in between. -/
def Page.weave {α : Type} : List α → List α → List α
  | lower :: below, key :: keys => lower :: key :: weave below keys
  | below, [] => below
  | [], keys => keys

/-- The page of a height as a part of its map; a page without keys is none. -/
def Page.outline {κ : Type} : (height : Nat) → Level κ height → List (Outline κ)
  | 0, ⟨_, [], _⟩ => []
  | 0, ⟨edit, first :: others, _⟩ => [.page edit first ((first :: others).map .key)]
  | _ + 1, ⟨_, [], _⟩ => []
  | height + 1, ⟨edit, first :: others, below⟩ =>
    [.page edit first
      (weave (below.map (outline height)) ((first :: others).map fun key => [.key key])).flatten]

/-- A map as its only part. -/
def Pages.outline {κ : Type} (pages : Pages κ) : List (Outline κ) :=
  Page.outline pages.height pages.top

namespace Outline

variable {κ : Type}

/-- The size of joined outlines is that of both parts, but for the end that is counted twice. -/
theorem sizeOf_append (left right : List (Outline κ)) :
    sizeOf (left ++ right) + 1 = sizeOf left + sizeOf right := by
  induction left with
  | nil => simp; omega
  | cons part rest ih => simp only [List.cons_append, List.cons.sizeOf_spec]; omega

/-- Whether two versions hold the same, given whether they do so under a key that both hold. Pages
are opened as late as possible, the one with the smaller first key before the other. -/
def agree [Ord κ] (same : κ → Bool) : List (Outline κ) → List (Outline κ) → Bool
  | [], [] => true
  | .key one :: left, .key other :: right =>
    compare one other == .eq && same one && agree same left right
  | .page edit first parts :: left, .page other second others :: right =>
    match compare first second with
    | .lt => agree same (parts ++ left) (.page other second others :: right)
    | .gt => agree same (.page edit first parts :: left) (others ++ right)
    | .eq =>
      if edit = other then agree same left right
      else agree same (parts ++ left) (others ++ right)
  | .page _ _ parts :: left, right => agree same (parts ++ left) right
  | left, .page _ _ parts :: right => agree same left (parts ++ right)
  | [], .key _ :: _ => false
  | .key _ :: _, [] => false
termination_by left right => sizeOf left + sizeOf right
decreasing_by
  all_goals
    simp only [List.cons.sizeOf_spec, Outline.page.sizeOf_spec, Outline.key.sizeOf_spec]
    have fewer := @sizeOf_append κ
    grind

end Outline

/-- A version holds the same as itself, whatever its keys lead to. -/
theorem Pages.agree_outline {κ : Type} [Ord κ] [Std.ReflOrd κ] (same : κ → Bool)
    (pages : Pages κ) : Outline.agree same pages.outline pages.outline = true := by
  obtain ⟨height, edit, keys, below⟩ := pages
  cases height <;> cases keys <;> simp [outline, Page.outline, Outline.agree]

end FormPatch
