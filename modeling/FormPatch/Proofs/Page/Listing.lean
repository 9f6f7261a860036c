import FormPatch.Page
import Mathlib.Data.List.Induction

/-!
# The keys on pages

Read from left to right, the pages of a map list its keys: what the first page below lists, the
first key, what the second page below lists, and so on. Pages are sound when each of them has one
page more below it than it has keys, or lies lowest, and when only the page above all others may be
without keys. A key cuts a page in two, and two pages may be joined around one.

Main statement: visiting a key leaves sound pages sound, and their keys as they are.
-/

namespace FormPatch

namespace Page

section Place

variable {α : Type} {front behind : List α} {item next : α} {place : Nat}

/-- The item at a place stands behind as many others. -/
theorem getElem?_place (here : front.length = place) :
    (front ++ item :: behind)[place]? = some item := by
  subst here
  simp

/-- The next item stands behind one more. -/
theorem getElem?_next (here : front.length = place) :
    (front ++ item :: next :: behind)[place + 1]? = some next := by
  subst here
  simp

/-- Another item takes the place of one. -/
theorem set_place (here : front.length = place) (other : α) :
    (front ++ item :: behind).set place other = front ++ other :: behind := by
  subst here
  simp

/-- Another item takes the next place. -/
theorem set_next (here : front.length = place) (other : α) :
    (front ++ item :: next :: behind).set (place + 1) other = front ++ item :: other :: behind := by
  subst here
  simp

/-- The item at a place is taken out from between the others. -/
theorem eraseIdx_place (here : front.length = place) :
    (front ++ item :: behind).eraseIdx place = front ++ behind := by
  subst here
  simp [List.eraseIdx_append_of_length_le]

/-- An item is put in between others. -/
theorem insertIdx_place (here : front.length = place) (other : α) :
    (front ++ behind).insertIdx place other = front ++ other :: behind := by
  subst here
  exact List.modifyTailIdx_add (i := 0) ..

/-- An item is put in behind the one at a place. -/
theorem insertIdx_next (here : front.length = place) (other : α) :
    (front ++ item :: behind).insertIdx (place + 1) other = front ++ item :: other :: behind := by
  subst here
  exact List.modifyTailIdx_add (i := 1) ..

end Place

variable {κ γ : Type}

/-- Keys in order, each behind what the next part holds, and with one more part at the end. Where
parts are missing nothing stands. -/
def interleave : List (List κ) → List κ → List κ
  | parts, [] => parts.headD []
  | parts, key :: keys => parts.headD [] ++ key :: interleave parts.tail keys

/-- Without parts there are only the keys. -/
theorem interleave_nil (keys : List κ) : interleave [] keys = keys := by
  induction keys with
  | nil => rfl
  | cons key keys ih => simp [interleave, ih]

/-- A key cuts the parts and the other keys in two. -/
theorem interleave_append (parts : List (List κ)) (front : List κ) (key : κ) (behind : List κ) :
    interleave parts (front ++ key :: behind) =
      interleave parts front ++ key :: interleave (parts.drop (front.length + 1)) behind := by
  induction front generalizing parts with
  | nil => simp [interleave]
  | cons first front ih => simp [interleave, ih]

/-- More parts than one behind the keys do not count. -/
theorem interleave_of_length {parts : List (List κ)} {keys : List κ}
    (enough : keys.length < parts.length) (others : List (List κ)) :
    interleave (parts ++ others) keys = interleave parts keys := by
  induction keys generalizing parts with
  | nil => cases parts with
    | nil => simp at enough
    | cons part parts => rfl
  | cons key keys ih => cases parts with
    | nil => simp at enough
    | cons part parts =>
      simp only [List.length_cons, Nat.add_lt_add_iff_right] at enough
      simp [interleave, ih enough]

/-- What a part holds stands between what comes before its place and what comes behind it. -/
theorem interleave_focus {lefts : List (List κ)} {front : List κ}
    (even : lefts.length = front.length) (part : List κ) (rights : List (List κ))
    (behind : List κ) :
    interleave (lefts ++ part :: rights) (front ++ behind) =
      interleave lefts front ++ (part ++ interleave ([] :: rights) behind) := by
  induction front generalizing lefts with
  | nil =>
    obtain rfl := List.length_eq_zero_iff.1 even
    cases behind <;> simp [interleave]
  | cons key front ih => cases lefts with
    | nil => simp at even
    | cons first lefts => simp [interleave, ih (Nat.succ.inj even)]

end Page

/-- What is known of that which lies below some pages. -/
structure Floor (κ γ : Type) where
  /-- Whether the pages are the lowest ones. -/
  lowest : Bool
  /-- The keys that lie there, in order. -/
  list : γ → List κ
  /-- Whether it is sound. -/
  good : γ → Prop

namespace Floor

open Page

variable {κ γ : Type}

/-- The keys on a page and below it, in order. -/
def listed (floor : Floor κ γ) (page : Page κ γ) : List κ :=
  interleave (page.below.map floor.list) page.keys

/-- Whether a page lies soundly on what is below it. -/
structure Bears (floor : Floor κ γ) (page : Page κ γ) : Prop where
  /-- Nothing lies below a lowest page, and one part more than there are keys below any other. -/
  length : page.below.length = if floor.lowest then 0 else page.keys.length + 1
  /-- What lies below is sound. -/
  good : ∀ lower ∈ page.below, floor.good lower

/-- What is known of that which lies below the pages one higher. -/
def above (floor : Floor κ γ) : Floor κ (Page κ γ) where
  lowest := false
  list := floor.listed
  good page := page.keys ≠ [] ∧ floor.Bears page

/-- What is known of that which lies below the pages of a height. -/
def ofHeight : (height : Nat) → Floor κ (Below κ height)
  | 0 => ⟨true, fun _ => [], fun _ => True⟩
  | height + 1 => (ofHeight height).above

variable {floor : Floor κ γ}

/-- A lowest page lists its own keys. -/
theorem Bears.listed_of_lowest {page : Page κ γ} (bears : floor.Bears page)
    (lowest : floor.lowest = true) : floor.listed page = page.keys := by
  have nothing : page.below = [] := List.length_eq_zero_iff.1 (by simp [bears.length, lowest])
  rw [listed, nothing, List.map_nil, interleave_nil]

/-- A page with other keys and parts bears them soundly when they fit each other. -/
theorem bears_above_iff {edit : Nat} {keys : List κ} {below : List (Page κ γ)} :
    floor.above.Bears ⟨edit, keys, below⟩ ↔
      below.length = keys.length + 1 ∧ ∀ lower ∈ below, floor.above.good lower :=
  ⟨fun bears => ⟨bears.length, bears.good⟩, fun ⟨length, good⟩ => ⟨length, good⟩⟩

/-- The page below at a place of a page, with those before and those behind. -/
theorem Bears.exists_focus {page : Page κ (Page κ γ)} (bears : floor.above.Bears page)
    {front behind : List κ} (keys : page.keys = front ++ behind) :
    ∃ lefts lower rights, page.below = lefts ++ lower :: rights ∧ lefts.length = front.length ∧
      rights.length = behind.length := by
  have length : page.below.length = front.length + behind.length + 1 := by
    simpa [above, keys] using bears.length
  have inside : front.length < page.below.length := by omega
  refine ⟨page.below.take front.length, page.below[front.length],
    page.below.drop (front.length + 1), ?_, ?_, ?_⟩
  · rw [← List.drop_eq_getElem_cons inside, List.take_append_drop]
  · rw [List.length_take]
    omega
  · rw [List.length_drop]
    omega

/-- What lies on a page and below it before a place. -/
def listedBefore (floor : Floor κ γ) (lefts : List (Page κ γ)) (front : List κ) : List κ :=
  interleave (lefts.map floor.listed) front

/-- What lies on a page and below it behind a place. -/
def listedBehind (floor : Floor κ γ) (rights : List (Page κ γ)) (behind : List κ) : List κ :=
  interleave ([] :: rights.map floor.listed) behind

/-- What a page lists, seen from the page below at a place. -/
theorem listed_focus {edit : Nat} {front behind : List κ} {lefts rights : List (Page κ γ)}
    (even : lefts.length = front.length) (lower : Page κ γ) :
    floor.above.listed ⟨edit, front ++ behind, lefts ++ lower :: rights⟩ =
      floor.listedBefore lefts front ++
        (floor.listed lower ++ floor.listedBehind rights behind) := by
  rw [listed, List.map_append, List.map_cons]
  exact interleave_focus (by simpa using even) _ _ _

/-- Behind a place stand a key, what lies below behind that, and the others. -/
theorem listedBehind_cons {middle : κ} {right : Page κ γ} {rights : List (Page κ γ)}
    {behind : List κ} :
    floor.listedBehind (right :: rights) (middle :: behind) =
      middle :: (floor.listed right ++ floor.listedBehind rights behind) := by
  have focus : interleave ([] ++ floor.listed right :: rights.map floor.listed) ([] ++ behind) =
      [] ++ (floor.listed right ++ floor.listedBehind rights behind) := interleave_focus rfl _ _ _
  exact congrArg (middle :: ·) focus

/-- Before a place stand the others, what lies below before a key, and that key. -/
theorem listedBefore_concat {lefts : List (Page κ γ)} {front : List κ}
    (even : lefts.length = front.length) {left : Page κ γ} {middle : κ} :
    floor.listedBefore (lefts ++ [left]) (front ++ [middle]) =
      floor.listedBefore lefts front ++ (floor.listed left ++ [middle]) := by
  rw [listedBefore, List.map_append, List.map_singleton]
  exact interleave_focus (by simpa using even) _ _ _

/-- What a page lists, seen from the key between two pages below. -/
theorem listed_window {edit : Nat} {front behind : List κ} {lefts rights : List (Page κ γ)}
    (even : lefts.length = front.length) (left : Page κ γ) (middle : κ) (right : Page κ γ) :
    floor.above.listed ⟨edit, front ++ middle :: behind, lefts ++ left :: right :: rights⟩ =
      floor.listedBefore lefts front ++ ((floor.listed left ++ middle :: floor.listed right) ++
        floor.listedBehind rights behind) := by
  rw [listed_focus even, listedBehind_cons, List.append_assoc, List.cons_append]

section Replacing

variable {made edit : Nat} {lefts rights : List (Page κ γ)} {lower other left left' right right' :
  Page κ γ}

/-- Another sound page may take the place of one below. -/
theorem Bears.replace {keys : List κ}
    (bears : floor.above.Bears ⟨made, keys, lefts ++ lower :: rights⟩)
    (good : floor.above.good other) : floor.above.Bears ⟨edit, keys, lefts ++ other :: rights⟩ := by
  obtain ⟨length, parts⟩ := bears_above_iff.1 bears
  obtain ⟨before, -, behind⟩ := by
    simpa only [List.forall_mem_append, List.forall_mem_cons] using parts
  refine bears_above_iff.2 ⟨by simpa using length, ?_⟩
  exact List.forall_mem_append.2 ⟨before, List.forall_mem_cons.2 ⟨good, behind⟩⟩

/-- Other sound pages may take the place of two neighbours below, around another key. -/
theorem Bears.replace_window {front behind : List κ} {middle : κ}
    (bears : floor.above.Bears ⟨made, front ++ middle :: behind, lefts ++ left :: right :: rights⟩)
    (first : floor.above.good left') (second : floor.above.good right') (key : κ) :
    floor.above.Bears ⟨edit, front ++ key :: behind, lefts ++ left' :: right' :: rights⟩ := by
  obtain ⟨length, parts⟩ := bears_above_iff.1 bears
  obtain ⟨before, -, -, behind⟩ := by
    simpa only [List.forall_mem_append, List.forall_mem_cons] using parts
  refine bears_above_iff.2 ⟨by simpa using length, ?_⟩
  exact List.forall_mem_append.2 ⟨before,
    List.forall_mem_cons.2 ⟨first, List.forall_mem_cons.2 ⟨second, behind⟩⟩⟩

/-- Two sound pages around a key may take the place of one below. -/
theorem Bears.replace_split {front behind : List κ}
    (bears : floor.above.Bears ⟨made, front ++ behind, lefts ++ lower :: rights⟩)
    (first : floor.above.good left) (second : floor.above.good right) (key : κ) :
    floor.above.Bears ⟨edit, front ++ key :: behind, lefts ++ left :: right :: rights⟩ := by
  obtain ⟨length, parts⟩ := bears_above_iff.1 bears
  obtain ⟨before, -, behind⟩ := by
    simpa only [List.forall_mem_append, List.forall_mem_cons] using parts
  refine bears_above_iff.2 ⟨by simp at length ⊢; omega, ?_⟩
  exact List.forall_mem_append.2 ⟨before,
    List.forall_mem_cons.2 ⟨first, List.forall_mem_cons.2 ⟨second, behind⟩⟩⟩

/-- A sound page may take the place of two neighbours below and the key between them. -/
theorem Bears.replace_join {front behind : List κ} {middle : κ}
    (bears : floor.above.Bears ⟨made, front ++ middle :: behind, lefts ++ left :: right :: rights⟩)
    (good : floor.above.good other) :
    floor.above.Bears ⟨edit, front ++ behind, lefts ++ other :: rights⟩ := by
  obtain ⟨length, parts⟩ := bears_above_iff.1 bears
  obtain ⟨before, -, -, behind⟩ := by
    simpa only [List.forall_mem_append, List.forall_mem_cons] using parts
  refine bears_above_iff.2 ⟨by simp at length ⊢; omega, ?_⟩
  exact List.forall_mem_append.2 ⟨before, List.forall_mem_cons.2 ⟨good, behind⟩⟩

end Replacing

/-- Only so many parts count as there are keys, and one more. -/
theorem listed_take {edit : Nat} {keys : List κ} {below : List γ} :
    floor.listed ⟨edit, keys, below.take (keys.length + 1)⟩ = floor.listed ⟨edit, keys, below⟩ := by
  simp only [listed]
  rcases Nat.lt_or_ge keys.length below.length with enough | few
  · have inside : keys.length < ((below.take (keys.length + 1)).map floor.list).length := by
      simp
      omega
    rw [← interleave_of_length inside ((below.drop (keys.length + 1)).map floor.list),
      ← List.map_append, List.take_append_drop]
  · rw [List.take_of_length_le (by omega)]

/-- A key cuts a page in two. -/
theorem listed_cut (floor : Floor κ γ) (edit : Nat) (front : List κ) (middle : κ) (behind : List κ)
    (below : List γ) :
    floor.listed ⟨edit, front ++ middle :: behind, below⟩ =
      floor.listed ⟨edit, front, below.take (front.length + 1)⟩ ++
        middle :: floor.listed ⟨edit, behind, below.drop (front.length + 1)⟩ := by
  rw [listed_take, listed, interleave_append, listed, listed, List.map_drop]

/-- The two pages around a key are sound when the page that it cuts is. -/
theorem Bears.cut {edit : Nat} {front behind : List κ} {middle : κ} {below : List γ}
    (bears : floor.Bears ⟨edit, front ++ middle :: behind, below⟩) :
    floor.Bears ⟨edit, front, below.take (front.length + 1)⟩ ∧
      floor.Bears ⟨edit, behind, below.drop (front.length + 1)⟩ := by
  have length := bears.length
  simp only [List.length_append, List.length_cons] at length
  refine ⟨⟨?_, fun lower member => bears.good lower (List.mem_of_mem_take member)⟩,
    ⟨?_, fun lower member => bears.good lower (List.mem_of_mem_drop member)⟩⟩
  · rw [List.length_take, length]
    cases floor.lowest
    · exact Nat.min_eq_left (by simp)
    · rfl
  · rw [List.length_drop, length]
    cases floor.lowest
    · show front.length + (behind.length + 1) + 1 - (front.length + 1) = behind.length + 1
      omega
    · exact Nat.zero_sub _

/-- Two sound pages may be joined around a key. -/
theorem Bears.join {left right : Page κ γ} (first : floor.Bears left) (second : floor.Bears right)
    (edit : Nat) (middle : κ) :
    floor.Bears ⟨edit, left.keys ++ middle :: right.keys, left.below ++ right.below⟩ := by
  refine ⟨?_, fun lower member => (List.mem_append.1 member).elim (first.good lower)
    (second.good lower)⟩
  simp only [List.length_append, List.length_cons, first.length, second.length]
  split <;> omega

/-- Joined pages list what both of them did. -/
theorem Bears.listed_join {left right : Page κ γ} (first : floor.Bears left)
    (second : floor.Bears right) (edit : Nat) (middle : κ) :
    floor.listed ⟨edit, left.keys ++ middle :: right.keys, left.below ++ right.below⟩ =
      floor.listed left ++ middle :: floor.listed right := by
  cases lowest : floor.lowest with
  | true =>
    rw [(first.join second edit middle).listed_of_lowest lowest, first.listed_of_lowest lowest,
      second.listed_of_lowest lowest]
  | false =>
    have length : left.below.length = left.keys.length + 1 := by simp [first.length, lowest]
    rw [listed_cut, ← length, List.take_left, List.drop_left]
    rfl

/-- Whether a page is as sound as another one and lists the same keys page by page. -/
structure Keeps (floor : Floor κ γ) (page other : Page κ γ) : Prop where
  /-- The keys on the page are the same. -/
  keys : other.keys = page.keys
  /-- What lies below lists the same keys. -/
  list : other.below.map floor.list = page.below.map floor.list
  /-- The page lies as soundly on it. -/
  bears : floor.Bears page → floor.Bears other

/-- A page that keeps its keys lists the same ones. -/
theorem Keeps.listed {page other : Page κ γ} (keeps : floor.Keeps page other) :
    floor.listed other = floor.listed page := by
  rw [Floor.listed, Floor.listed, keeps.keys, keeps.list]

/-- A page that keeps its keys is as good as it was to the page above. -/
theorem Keeps.good {page other : Page κ γ} (keeps : floor.Keeps page other)
    (good : floor.above.good page) : floor.above.good other :=
  ⟨keeps.keys ▸ good.1, keeps.bears good.2⟩

/-- An edit that only leads through a page keeps its keys. -/
theorem keeps_renew (edit : Nat) (page : Page κ γ) : floor.Keeps page (page.renew edit) where
  keys := rfl
  list := rfl
  bears bears := ⟨bears.length, bears.good⟩

/-- A page keeps its keys when the one below at a place does. -/
theorem Keeps.replace {lower other : Page κ γ} (keeps : floor.Keeps lower other) {made edit : Nat}
    {keys : List κ} {lefts rights : List (Page κ γ)} :
    floor.above.Keeps ⟨made, keys, lefts ++ lower :: rights⟩
      ⟨edit, keys, lefts ++ other :: rights⟩ where
  keys := rfl
  list := by simp [above, keeps.listed]
  bears bears := bears.replace (keeps.good (bears.good lower (by simp)))

/-- A page keeps its keys when two neighbours below do. -/
theorem Keeps.replace_window {left left' right right' : Page κ γ} (first : floor.Keeps left left')
    (second : floor.Keeps right right') {made edit : Nat} {front behind : List κ} {middle : κ}
    {lefts rights : List (Page κ γ)} :
    floor.above.Keeps ⟨made, front ++ middle :: behind, lefts ++ left :: right :: rights⟩
      ⟨edit, front ++ middle :: behind, lefts ++ left' :: right' :: rights⟩ where
  keys := rfl
  list := by simp [above, first.listed, second.listed]
  bears bears := bears.replace_window (first.good (bears.good left (by simp)))
    (second.good (bears.good right (by simp))) middle

/-- A page keeps its keys when a page below is changed that does. -/
theorem keeps_modify {change : Page κ γ → Page κ γ}
    (keeps : ∀ lower, floor.Keeps lower (change lower)) (edit place : Nat)
    (page : Page κ (Page κ γ)) :
    floor.above.Keeps page ⟨edit, page.keys, page.below.modify place change⟩ := by
  obtain ⟨made, keys, below⟩ := page
  rcases Nat.lt_or_ge place below.length with inside | outside
  · have parts : below.take place ++ below[place] :: below.drop (place + 1) = below := by
      rw [← List.drop_eq_getElem_cons inside, List.take_append_drop]
    have replaced : floor.above.Keeps
        ⟨made, keys, below.take place ++ below[place] :: below.drop (place + 1)⟩ ⟨edit, keys, _⟩ :=
      (keeps below[place]).replace
    rw [parts] at replaced
    rw [List.modify_eq_take_cons_drop inside]
    exact replaced
  · rw [List.modify_eq_self outside]
    exact keeps_renew edit _

/-- The last key of a page cuts off what lies below behind it. -/
theorem Bears.cut_last {made : Nat} {others : List κ} {last : κ} {below : List γ}
    (bears : floor.Bears ⟨made, others ++ [last], below⟩) (edit : Nat) :
    floor.Bears ⟨edit, others, below.dropLast⟩ ∧ floor.Bears ⟨edit, [], below.getLast?.toList⟩ ∧
      floor.listed ⟨made, others ++ [last], below⟩ =
        floor.listed ⟨edit, others, below.dropLast⟩ ++
          last :: floor.listed ⟨edit, [], below.getLast?.toList⟩ := by
  have parts : below.take (others.length + 1) = below.dropLast ∧
      below.drop (others.length + 1) = below.getLast?.toList := by
    have length := bears.length
    cases below using List.reverseRecOn with
    | nil => exact ⟨rfl, rfl⟩
    | append_singleton below highest =>
      have even : below.length = others.length + 1 := by
        cases lowest : floor.lowest <;> simp [lowest] at length
        exact length
      rw [← even]
      exact ⟨by simp, by simp⟩
  have whole : floor.Bears ⟨edit, others ++ last :: [], below⟩ := ⟨bears.length, bears.good⟩
  have lists := listed_cut floor edit others last [] below
  obtain ⟨first, second⟩ := whole.cut
  rw [parts.1] at first lists
  rw [parts.2] at second lists
  exact ⟨first, second, lists⟩

/-- The first key of a page cuts off what lies below before it. -/
theorem Bears.cut_first {made : Nat} {first : κ} {others : List κ} {below : List γ}
    (bears : floor.Bears ⟨made, first :: others, below⟩) (edit : Nat) :
    floor.Bears ⟨edit, [], below.head?.toList⟩ ∧ floor.Bears ⟨edit, others, below.tail⟩ ∧
      floor.listed ⟨made, first :: others, below⟩ =
        floor.listed ⟨edit, [], below.head?.toList⟩ ++
          first :: floor.listed ⟨edit, others, below.tail⟩ := by
  have whole : floor.Bears ⟨edit, [] ++ first :: others, below⟩ := ⟨bears.length, bears.good⟩
  have lists := listed_cut floor edit [] first others below
  have start : below.take 1 = below.head?.toList := by cases below <;> rfl
  have rest : below.drop 1 = below.tail := List.drop_one
  obtain ⟨left, right⟩ := whole.cut
  rw [List.length_nil, Nat.zero_add, start] at left lists
  rw [List.length_nil, Nat.zero_add, rest] at right
  rw [rest] at lists
  exact ⟨left, right, lists⟩

/-- What was put in front of a page may be taken away again. -/
theorem Keeps.tail {edit : Nat} {first : κ} {moved : List γ} {right after : Page κ γ}
    (keeps : floor.Keeps ⟨edit, first :: right.keys, moved ++ right.below⟩ after)
    (added : floor.Bears ⟨edit, [], moved⟩) (bears : floor.Bears right) :
    floor.Keeps right ⟨edit, after.keys.tail, after.below.tail⟩ := by
  have whole := keeps.bears (added.join bears edit first)
  obtain ⟨made, keys, below⟩ := after
  obtain rfl : keys = first :: right.keys := keeps.keys
  refine ⟨rfl, ?_, fun _ => (whole.cut_first edit).2.1⟩
  have lists : below.map floor.list = (moved ++ right.below).map floor.list := keeps.list
  show below.tail.map floor.list = right.below.map floor.list
  rw [List.map_tail, lists]
  have length := added.length
  cases lowest : floor.lowest with
  | true =>
    obtain rfl : moved = [] := by simpa [lowest] using length
    have nothing : right.below = [] := by simpa [lowest] using bears.length
    rw [nothing]
    rfl
  | false =>
    obtain ⟨one, rfl⟩ : ∃ one, moved = [one] := by
      simpa [lowest, List.length_eq_one_iff] using length
    rfl

/-- What was put behind a page may be taken away again. -/
theorem Keeps.dropLast {edit : Nat} {last : κ} {moved : List γ} {left before : Page κ γ}
    (keeps : floor.Keeps ⟨edit, left.keys ++ [last], left.below ++ moved⟩ before)
    (added : floor.Bears ⟨edit, [], moved⟩) (bears : floor.Bears left) :
    floor.Keeps left ⟨edit, before.keys.dropLast, before.below.dropLast⟩ := by
  have whole := keeps.bears (bears.join added edit last)
  obtain ⟨made, keys, below⟩ := before
  obtain rfl : keys = left.keys ++ [last] := keeps.keys
  simp only [List.dropLast_concat]
  refine ⟨rfl, ?_, fun _ => (whole.cut_last edit).1⟩
  have lists : below.map floor.list = (left.below ++ moved).map floor.list := keeps.list
  show below.dropLast.map floor.list = left.below.map floor.list
  rw [List.map_dropLast, lists]
  have length := added.length
  cases lowest : floor.lowest with
  | true =>
    obtain rfl : moved = [] := by simpa [lowest] using length
    have nothing : left.below = [] := by simpa [lowest] using bears.length
    rw [nothing]
    rfl
  | false =>
    obtain ⟨one, rfl⟩ : ∃ one, moved = [one] := by
      simpa [lowest, List.length_eq_one_iff] using length
    simp

/-- A page with nothing below it lists its own keys. -/
@[simp] theorem listed_lone (edit : Nat) (keys : List κ) :
    floor.listed ⟨edit, keys, []⟩ = keys :=
  interleave_nil keys

/-- The keys of a page are among those that it lists. -/
theorem sublist_listed (page : Page κ γ) : page.keys.Sublist (floor.listed page) := by
  obtain ⟨edit, keys, below⟩ := page
  induction keys generalizing below with
  | nil => exact List.nil_sublist _
  | cons key keys ih =>
    have others := ih below.tail
    simp only [listed, List.map_tail] at others
    exact ((others.cons_cons key).trans (List.sublist_append_right _ _))

/-- Visiting a key keeps all keys. -/
theorem keeps_visit [Ord κ] (edit : Nat) (key : κ) (height : Nat) (page : Level κ height) :
    (ofHeight height).Keeps page (Page.visit edit key height page) := by
  induction height with
  | zero => exact keeps_renew edit page
  | succ height ih =>
    rw [Page.visit]
    split
    · exact keeps_renew edit page
    · exact keeps_modify ih edit _ page

end Floor

namespace Pages

open Page

variable {κ : Type}

/-- The keys of a map in order. -/
def keys (pages : Pages κ) : List κ := (Floor.ofHeight pages.height).listed pages.top

/-- Whether the pages of a map are sound. -/
structure IsSound (pages : Pages κ) : Prop where
  /-- The page above all others lies soundly on them. -/
  bears : (Floor.ofHeight pages.height).Bears pages.top
  /-- It holds a key if there are others. -/
  nonempty : pages.height ≠ 0 → pages.top.keys ≠ []

/-- A map without keys has sound pages. -/
theorem isSound_empty : (empty : Pages κ).IsSound where
  bears := ⟨rfl, fun _ member => nomatch member⟩
  nonempty lowest := absurd rfl lowest

variable [Ord κ]

/-- Visiting a key leaves sound pages sound. -/
theorem IsSound.visit {pages : Pages κ} (sound : pages.IsSound) (edit : Nat) (key : κ) :
    (pages.visit edit key).IsSound := by
  have keeps := Floor.keeps_visit edit key pages.height pages.top
  exact ⟨keeps.bears sound.bears, fun higher => keeps.keys ▸ sound.nonempty higher⟩

/-- Visiting a key leaves the keys. -/
theorem keys_visit (pages : Pages κ) (edit : Nat) (key : κ) :
    (pages.visit edit key).keys = pages.keys :=
  (Floor.keeps_visit edit key pages.height pages.top).listed

end Pages

end FormPatch
