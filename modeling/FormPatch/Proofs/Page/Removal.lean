import FormPatch.Page.Removal
import FormPatch.Proofs.Page.Insertion

/-!
# Taking keys off sound pages

A key is taken off a page from between the keys before it and those behind it. Pages stay sound,
since a page that is entered holds two keys at least, and gives up one at most.

Main statement: taking a key off sound pages that list ascending keys leaves sound pages that list
all others, whether or not it was there.
-/

namespace FormPatch

open Std

namespace Page.Target

variable {κ : Type} [Ord κ]

/-- Whether a key between others is the one that a target picks. -/
def Picks : Target κ → List κ → κ → List κ → Prop
  | .key sought, _, known, _ => compare known sought = .eq
  | .least, before, _, _ => before = []
  | .greatest, _, _, behind => behind = []

/-- Whether a target can only lie between some keys. -/
def LiesBetween : Target κ → List κ → List κ → Prop
  | .key sought, before, behind => Page.LiesBetween before sought behind
  | .least, before, _ => before = []
  | .greatest, _, behind => behind = []

variable {target : Target κ} {before behind front rest : List κ}

/-- A target lies between fewer keys too. -/
theorem LiesBetween.mono (lies : target.LiesBetween before behind) (fewer : front ⊆ before)
    (others : rest ⊆ behind) : target.LiesBetween front rest := by
  cases target with
  | key key =>
    exact ⟨fun known member => lies.before known (fewer member),
      fun known member => lies.behind known (others member)⟩
  | least =>
    obtain rfl : before = [] := lies
    exact List.eq_nil_of_subset_nil fewer
  | greatest =>
    obtain rfl : behind = [] := lies
    exact List.eq_nil_of_subset_nil others

/-- The key that a target picks among some keys is the one that it picks among more of them, when it
can only lie there. -/
theorem Picks.within {known : κ} (picks : target.Picks front known rest)
    (lies : target.LiesBetween before behind) :
    target.Picks (before ++ front) known (rest ++ behind) := by
  cases target with
  | key key => exact picks
  | least =>
    obtain rfl : before = [] := lies
    exact picks
  | greatest =>
    obtain rfl : behind = [] := lies
    obtain rfl : rest = [] := picks
    rfl

end Page.Target

namespace Floor

open Page

variable {κ γ : Type} [Ord κ] {floor : Floor κ γ}

/-- What a removal makes of a page. -/
inductive Removes (floor : Floor κ γ) (target : Target κ) (page : Page κ γ) :
    Removal κ γ → Prop where
  /-- The target is taken out from between the other keys, and the page has at most one key less. -/
  | found {left : Page κ γ} (front : List κ) {key : κ} (behind : List κ) (bears : floor.Bears left)
    (length : page.keys.length ≤ left.keys.length + 1)
    (before : floor.listed page = front ++ key :: behind)
    (after : floor.listed left = front ++ behind) (picks : target.Picks front key behind) :
    Removes floor target page ⟨left, some key⟩
  /-- The target is a key that is not there, and all keys stay. -/
  | missed {left : Page κ γ} {key : κ} (keeps : floor.Keeps page left) (seeks : target = .key key)
    (absent : ∀ known ∈ floor.listed page, compare known key ≠ .eq) :
    Removes floor target page ⟨left, none⟩

/-- A target is taken off a lowest page. -/
theorem removes_takeLowest [TransOrd κ] {page : Page κ γ} (bears : floor.Bears page)
    (lowest : floor.lowest = true) (ascends : Ascends page.keys) (edit : Nat) {target : Target κ}
    (nonempty : page.keys ≠ [] ∨ ∃ key, target = .key key) :
    floor.Removes target page (page.takeLowest edit target) := by
  have lists := bears.listed_of_lowest lowest
  have bare (keys : List κ) : floor.Bears ⟨edit, keys, []⟩ := ⟨by simp [lowest], by simp⟩
  cases target with
  | key key =>
    cases ranked ascends key with
    | held front same behind parts rank holds equal lies =>
      simp only [takeLowest, if_pos holds, rank, parts, eraseIdx_place rfl, getElem?_place rfl]
      exact .found _ _ (bare _) (by simp [parts]; omega) (lists.trans parts) (listed_lone edit _)
        equal
    | missing front behind parts rank holds lies =>
      simp only [takeLowest, holds, Bool.false_eq_true, if_false]
      refine .missed (keeps_renew edit page) rfl fun known member same => ?_
      rw [lists] at member
      have held : page.holds key = true := List.any_eq_true.2 ⟨known, member, by simp [same]⟩
      rw [holds] at held
      cases held
  | least =>
    obtain ⟨made, keys, below⟩ := page
    cases keys with
    | nil => simp at nonempty
    | cons first others =>
      exact .found [] others (bare others) (by simp) lists (listed_lone edit others) rfl
  | greatest =>
    obtain ⟨made, all, below⟩ := page
    cases all using List.reverseRecOn with
    | nil => simp at nonempty
    | append_singleton others last =>
      simp only [takeLowest, List.length_append, List.length_singleton, Nat.add_sub_cancel,
        eraseIdx_place rfl, getElem?_place rfl]
      exact .found _ _ (bare _) (by simp) lists (listed_lone edit _) rfl

omit floor in
/-- A key that is not in the middle is nowhere when it can only lie there. -/
theorem absent_within [TransOrd κ] {key : κ} {before middle behind : List κ}
    (lies : Page.LiesBetween before key behind)
    (absent : ∀ known ∈ middle, compare known key ≠ .eq) :
    ∀ known ∈ before ++ (middle ++ behind), compare known key ≠ .eq := by
  simp only [List.forall_mem_append]
  refine ⟨fun known member same => ?_, absent, fun known member same => ?_⟩
  · simp [lies.before known member] at same
  · have equal := OrientedCmp.eq_symm same
    simp [lies.behind known member] at equal

section Inner

variable {take : Target κ → Page κ γ → Removal κ γ} {edit made : Nat} {target : Target κ}
  {front behind : List κ} {lefts rights : List (Page κ γ)}
  (takes : ∀ target page, floor.above.good page → Ascends (floor.listed page) →
    floor.Removes target page (take target page))
  (even : lefts.length = front.length)

include takes even

/-- The greatest key below takes the place of the key behind it. -/
theorem removes_pullUp_greatest {left right : Page κ γ} {same key : κ}
    (bears : floor.above.Bears ⟨made, front ++ same :: behind, lefts ++ left :: right :: rights⟩)
    (ascends : Ascends (floor.above.listed
      ⟨made, front ++ same :: behind, lefts ++ left :: right :: rights⟩))
    (large : 2 ≤ left.keys.length) (equal : compare same key = .eq) :
    floor.above.Removes (.key key)
      ⟨made, front ++ same :: behind, lefts ++ left :: right :: rights⟩
      (pullUp take edit front.length front.length .greatest
        ⟨made, front ++ same :: behind, lefts ++ left :: right :: rights⟩) := by
  have goodLeft : floor.above.good left := bears.good left (by simp)
  have goodRight : floor.above.good right := bears.good right (by simp)
  rw [listed_window even] at ascends
  have removes := takes .greatest left goodLeft (List.pairwise_append.1 ascends.middle).1
  simp only [pullUp, getElem?_place even, getElem?_place rfl, set_place even, set_place rfl]
  generalize take .greatest left = removal at removes ⊢
  cases removes with
  | @found rest inner nearest others bearsRest less before after picks =>
    obtain rfl : others = [] := picks
    have good : floor.above.good rest := ⟨List.ne_nil_of_length_pos (by omega), bearsRest⟩
    refine .found (floor.listedBefore lefts front ++ floor.listed left)
      (floor.listed right ++ floor.listedBehind rights behind)
      (bears.replace_window good goodRight nearest) (by simp) ?_ ?_ equal
    · rw [listed_window even]
      simp
    · rw [listed_window even, after, before]
      simp
  | missed keeps seeks absent => cases seeks

/-- The least key below takes the place of the key before it. -/
theorem removes_pullUp_least {left right : Page κ γ} {same key : κ}
    (bears : floor.above.Bears ⟨made, front ++ same :: behind, lefts ++ left :: right :: rights⟩)
    (ascends : Ascends (floor.above.listed
      ⟨made, front ++ same :: behind, lefts ++ left :: right :: rights⟩))
    (large : 2 ≤ right.keys.length) (equal : compare same key = .eq) :
    floor.above.Removes (.key key)
      ⟨made, front ++ same :: behind, lefts ++ left :: right :: rights⟩
      (pullUp take edit front.length (front.length + 1) .least
        ⟨made, front ++ same :: behind, lefts ++ left :: right :: rights⟩) := by
  have goodLeft : floor.above.good left := bears.good left (by simp)
  have goodRight : floor.above.good right := bears.good right (by simp)
  rw [listed_window even] at ascends
  have removes := takes .least right goodRight
    (List.pairwise_cons.1 (List.pairwise_append.1 ascends.middle).2.1).2
  simp only [pullUp, getElem?_next even, getElem?_place rfl, set_next even, set_place rfl]
  generalize take .least right = removal at removes ⊢
  cases removes with
  | @found rest inner nearest others bearsRest less before after picks =>
    obtain rfl : inner = [] := picks
    have good : floor.above.good rest := ⟨List.ne_nil_of_length_pos (by omega), bearsRest⟩
    refine .found (floor.listedBefore lefts front ++ floor.listed left)
      (floor.listed right ++ floor.listedBehind rights behind)
      (bears.replace_window goodLeft good nearest) (by simp) ?_ ?_ equal
    · rw [listed_window even]
      simp
    · rw [listed_window even, after, before]
      simp
  | missed keeps seeks absent => cases seeks

variable [TransOrd κ]

/-- A target is taken off a page when it is taken off the page below at its place. -/
theorem removes_takeBelow {lower : Page κ γ}
    (bears : floor.above.Bears ⟨made, front ++ behind, lefts ++ lower :: rights⟩)
    (ascends : Ascends
      (floor.above.listed ⟨made, front ++ behind, lefts ++ lower :: rights⟩))
    (large : 2 ≤ lower.keys.length)
    (lies : target.LiesBetween (floor.listedBefore lefts front)
      (floor.listedBehind rights behind)) :
    floor.above.Removes target ⟨made, front ++ behind, lefts ++ lower :: rights⟩
      (takeBelow take edit front.length target
        ⟨made, front ++ behind, lefts ++ lower :: rights⟩) := by
  rw [listed_focus even] at ascends
  have removes := takes target lower (bears.good lower (by simp)) ascends.middle
  simp only [takeBelow, getElem?_place even, set_place even]
  generalize take target lower = removal at removes ⊢
  cases removes with
  | @found left inner key rest bearsLeft less before after picks =>
    have good : floor.above.good left := ⟨List.ne_nil_of_length_pos (by omega), bearsLeft⟩
    refine .found _ _ (bears.replace good) (Nat.le_succ _) ?_ ?_ (picks.within lies)
    · rw [listed_focus even, before]
      simp
    · rw [listed_focus even, after]
      simp
  | @missed left key keeps seeks absent =>
    subst seeks
    refine .missed keeps.replace rfl ?_
    rw [listed_focus even]
    exact absent_within lies absent

/-- A target is taken off two pages that are joined around the key between them. -/
theorem removes_takeJoined {left right : Page κ γ} {middle : κ}
    (bears : floor.above.Bears
      ⟨made, front ++ middle :: behind, lefts ++ left :: right :: rights⟩)
    (ascends : Ascends (floor.above.listed
      ⟨made, front ++ middle :: behind, lefts ++ left :: right :: rights⟩))
    (lies : target.LiesBetween (floor.listedBefore lefts front)
      (floor.listedBehind rights behind)) :
    floor.above.Removes target ⟨made, front ++ middle :: behind, lefts ++ left :: right :: rights⟩
      (takeJoined take edit front.length target
        ⟨made, front ++ middle :: behind, lefts ++ left :: right :: rights⟩) := by
  have goodLeft : floor.above.good left := bears.good left (by simp)
  have goodRight : floor.above.good right := bears.good right (by simp)
  rw [listed_window even] at ascends
  have lists := goodLeft.2.listed_join goodRight.2 edit middle
  have removes := takes target
    ⟨edit, left.keys ++ middle :: right.keys, left.below ++ right.below⟩
    ⟨by simp, goodLeft.2.join goodRight.2 edit middle⟩ (lists ▸ ascends.middle)
  have positive : 0 < left.keys.length := List.length_pos_iff.2 goodLeft.1
  have others : 0 < right.keys.length := List.length_pos_iff.2 goodRight.1
  simp only [takeJoined, getElem?_place even, getElem?_place rfl, getElem?_next even,
    eraseIdx_place even, eraseIdx_place rfl, set_place even]
  generalize take target
    ⟨edit, left.keys ++ middle :: right.keys, left.below ++ right.below⟩ = removal at removes ⊢
  cases removes with
  | @found joined inner key rest bearsJoined less before after picks =>
    simp only [List.length_append, List.length_cons] at less
    have good : floor.above.good joined := ⟨List.ne_nil_of_length_pos (by omega), bearsJoined⟩
    refine .found _ _ (bears.replace_join good) (by simp; omega) ?_ ?_ (picks.within lies)
    · rw [listed_window even, ← lists, before]
      simp
    · rw [listed_focus even, after]
      simp
  | @missed joined key keeps seeks absent =>
    subst seeks
    refine .missed (keeps_renew edit _) rfl ?_
    rw [listed_window even, ← lists]
    exact absent_within lies absent

/-- A target is taken off a page that was filled up with a key from the page before it. -/
theorem removes_takeBehind {left right : Page κ γ} {middle : κ}
    (bears : floor.above.Bears
      ⟨made, front ++ middle :: behind, lefts ++ left :: right :: rights⟩)
    (ascends : Ascends (floor.above.listed
      ⟨made, front ++ middle :: behind, lefts ++ left :: right :: rights⟩))
    (large : 2 ≤ left.keys.length)
    (lies : target.LiesBetween
      (floor.listedBefore lefts front ++ (floor.listed left ++ [middle]))
      (floor.listedBehind rights behind)) :
    floor.above.Removes target ⟨made, front ++ middle :: behind, lefts ++ left :: right :: rights⟩
      (takeBehind take edit front.length target
        ⟨made, front ++ middle :: behind, lefts ++ left :: right :: rights⟩) := by
  have goodLeft : floor.above.good left := bears.good left (by simp)
  have goodRight : floor.above.good right := bears.good right (by simp)
  rw [listed_window even] at ascends
  obtain ⟨leftMade, leftKeys, leftBelow⟩ := left
  cases leftKeys using List.reverseRecOn with
  | nil => exact absurd rfl goodLeft.1
  | append_singleton others last =>
    -- What the last key of the page before cuts off goes in front of the page behind.
    obtain ⟨bearsShort, bearsMoved, leftLists⟩ := goodLeft.2.cut_last edit
    have filledLists := bearsMoved.listed_join goodRight.2 edit middle
    have filledBears := bearsMoved.join goodRight.2 edit middle
    simp only [List.nil_append] at filledLists filledBears
    generalize filledIs : (⟨edit, middle :: right.keys, leftBelow.getLast?.toList ++ right.below⟩ :
      Page κ γ) = filled at filledLists filledBears
    have window : floor.listed ⟨leftMade, others ++ [last], leftBelow⟩ ++
        middle :: floor.listed right =
        floor.listed ⟨edit, others, leftBelow.dropLast⟩ ++ last :: floor.listed filled := by
      rw [leftLists, filledLists, List.append_assoc, List.cons_append]
    have inOrder := ascends.middle
    rw [window] at inOrder
    have removes := takes target filled ⟨by simp [← filledIs], filledBears⟩
      (List.pairwise_cons.1 (List.pairwise_append.1 inOrder).2.1).2
    simp only [takeBehind, getElem?_place even, getElem?_place rfl, getElem?_next even,
      List.getLast?_concat, List.dropLast_concat, filledIs, set_place even, set_place rfl,
      set_next even]
    generalize take target filled = removal at removes ⊢
    have short : floor.above.good ⟨edit, others, leftBelow.dropLast⟩ := by
      simp only [List.length_append, List.length_singleton] at large
      exact ⟨List.ne_nil_of_length_pos (by show 0 < others.length; omega), bearsShort⟩
    have lies : target.LiesBetween (floor.listedBefore lefts front ++
        (floor.listed ⟨edit, others, leftBelow.dropLast⟩ ++ [last]))
        (floor.listedBehind rights behind) := by
      refine lies.mono (fun known member => ?_) (List.Subset.refl _)
      simp only [leftLists, List.mem_append, List.mem_cons] at member ⊢
      grind
    cases removes with
    | @found after inner key rest bearsAfter less before afterLists picks =>
      have positive : 0 < right.keys.length := List.length_pos_iff.2 goodRight.1
      simp only [← filledIs, List.length_cons] at less
      have good : floor.above.good after := ⟨List.ne_nil_of_length_pos (by omega), bearsAfter⟩
      refine .found _ _ (bears.replace_window short good last) (by simp) ?_ ?_ (picks.within lies)
      · rw [listed_window even, window, before]
        simp
      · rw [listed_window even, afterLists]
        simp
    | @missed after key keeps seeks absent =>
      subst seeks
      subst filledIs
      have back := keeps.tail bearsMoved goodRight.2
      refine .missed ((keeps_renew edit _).replace_window back) rfl ?_
      rw [listed_window even, window]
      simpa using absent_within lies absent

/-- A target is taken off a page that was filled up with a key from the page behind it. -/
theorem removes_takeBefore {left right : Page κ γ} {middle : κ}
    (bears : floor.above.Bears
      ⟨made, front ++ middle :: behind, lefts ++ left :: right :: rights⟩)
    (ascends : Ascends (floor.above.listed
      ⟨made, front ++ middle :: behind, lefts ++ left :: right :: rights⟩))
    (large : 2 ≤ right.keys.length)
    (lies : target.LiesBetween (floor.listedBefore lefts front)
      (floor.listedBehind (right :: rights) (middle :: behind))) :
    floor.above.Removes target ⟨made, front ++ middle :: behind, lefts ++ left :: right :: rights⟩
      (takeBefore take edit front.length target
        ⟨made, front ++ middle :: behind, lefts ++ left :: right :: rights⟩) := by
  have goodLeft : floor.above.good left := bears.good left (by simp)
  have goodRight : floor.above.good right := bears.good right (by simp)
  rw [listed_window even] at ascends
  obtain ⟨rightMade, rightKeys, rightBelow⟩ := right
  cases rightKeys with
  | nil => exact absurd rfl goodRight.1
  | cons first others =>
    -- What the first key of the page behind cuts off goes behind the page before.
    obtain ⟨bearsMoved, bearsShort, rightLists⟩ := goodRight.2.cut_first edit
    have filledLists := goodLeft.2.listed_join bearsMoved edit middle
    have filledBears := goodLeft.2.join bearsMoved edit middle
    generalize filledIs : (⟨edit, left.keys ++ [middle], left.below ++ rightBelow.head?.toList⟩ :
      Page κ γ) = filled at filledLists filledBears
    have window : floor.listed left ++
        middle :: floor.listed ⟨rightMade, first :: others, rightBelow⟩ =
        floor.listed filled ++ first :: floor.listed ⟨edit, others, rightBelow.tail⟩ := by
      rw [rightLists, filledLists, List.append_assoc, List.cons_append]
    have inOrder := ascends.middle
    rw [window] at inOrder
    have removes := takes target filled ⟨by simp [← filledIs], filledBears⟩
      (List.pairwise_append.1 inOrder).1
    simp only [takeBefore, getElem?_place even, getElem?_place rfl, getElem?_next even, filledIs,
      set_place even, set_place rfl, set_next even]
    generalize take target filled = removal at removes ⊢
    have short : floor.above.good ⟨edit, others, rightBelow.tail⟩ := by
      simp only [List.length_cons] at large
      exact ⟨List.ne_nil_of_length_pos (by show 0 < others.length; omega), bearsShort⟩
    have lies : target.LiesBetween (floor.listedBefore lefts front)
        ((first :: floor.listed ⟨edit, others, rightBelow.tail⟩) ++
          floor.listedBehind rights behind) := by
      refine lies.mono (List.Subset.refl _) (fun known member => ?_)
      simp only [listedBehind_cons, rightLists, List.mem_append, List.mem_cons] at member ⊢
      grind
    cases removes with
    | @found before inner key rest bearsBefore less beforeLists afterLists picks =>
      have positive : 0 < left.keys.length := List.length_pos_iff.2 goodLeft.1
      simp only [← filledIs, List.length_append, List.length_singleton] at less
      have good : floor.above.good before := ⟨List.ne_nil_of_length_pos (by omega), bearsBefore⟩
      refine .found _ _ (bears.replace_window good short first) (by simp) ?_ ?_ (picks.within lies)
      · rw [listed_window even, window, beforeLists]
        simp
      · rw [listed_window even, afterLists]
        simp
    | @missed before key keeps seeks absent =>
      subst seeks
      subst filledIs
      have back := keeps.dropLast bearsMoved goodLeft.2
      refine .missed (back.replace_window (keeps_renew edit _)) rfl ?_
      rw [listed_window even, window]
      simpa using absent_within lies absent

end Inner

/-- Where a target lies among the keys of a page. -/
inductive Sought (page : Page κ γ) : Target κ → Prop where
  /-- It is one of these keys. -/
  | held {front : List κ} {same key : κ} {behind : List κ}
    (keys : page.keys = front ++ same :: behind) (rank : page.rankOf (.key key) = front.length)
    (holds : page.holdsTarget (.key key) = true) (equal : compare same key = .eq)
    (lies : Page.LiesBetween front key behind) :
    Sought page (.key key)
  /-- It lies below. -/
  | missing {target : Target κ} (front behind : List κ) (keys : page.keys = front ++ behind)
    (rank : page.rankOf target = front.length) (holds : page.holdsTarget target = false)
    (lies : target.LiesBetween front behind) : Sought page target

omit floor in
/-- Among ascending keys each target has its place. -/
theorem sought [TransOrd κ] (page : Page κ γ) (ascends : Ascends page.keys) (target : Target κ) :
    Sought page target := by
  cases target with
  | key key =>
    cases ranked ascends key with
    | held front same behind keys rank holds equal lies => exact .held keys rank holds equal lies
    | missing front behind keys rank holds lies => exact .missing front behind keys rank holds lies
  | least => exact .missing [] page.keys rfl rfl rfl rfl
  | greatest => exact .missing page.keys [] (List.append_nil _).symm rfl rfl rfl

/-- A target that lies between those beside its place on a page lies between all keys before and
behind it. -/
theorem liesBetween_target [TransOrd κ] {target : Target κ} {front behind middle : List κ}
    {lefts rights : List (Page κ γ)} (even : lefts.length = front.length)
    (ascends : Ascends (floor.listedBefore lefts front ++
      (middle ++ floor.listedBehind rights behind)))
    (lies : target.LiesBetween front behind) :
    target.LiesBetween (floor.listedBefore lefts front) (floor.listedBehind rights behind) := by
  cases target with
  | key key => exact liesBetween_focus even ascends lies
  | least =>
    obtain rfl : front = [] := lies
    obtain rfl := List.length_eq_zero_iff.1 even
    rfl
  | greatest =>
    obtain rfl : behind = [] := lies
    rfl

omit [Ord κ] in
/-- A page that can give a key away has others left. -/
theorem two_le_of_canGive {page : Page κ (Page κ γ)} {lower : Page κ γ} {place : Nat}
    (here : page.below[place]? = some lower) (gives : page.canGive place = true) :
    2 ≤ lower.keys.length := by
  have enough : lower.isSmall = false := by simpa [canGive, here] using gives
  have large : ¬lower.keys.length < 32 := of_decide_eq_false enough
  omega

/-- A target is taken off a page when it is taken off each page below. -/
theorem removes_takeInner [TransOrd κ] {take : Target κ → Page κ γ → Removal κ γ}
    (takes : ∀ target page, floor.above.good page → Ascends (floor.listed page) →
      floor.Removes target page (take target page)) (edit : Nat) (target : Target κ)
    {page : Page κ (Page κ γ)} (good : floor.above.above.good page)
    (ascends : Ascends (floor.above.listed page)) :
    floor.above.Removes target page (page.takeInner take edit target) := by
  obtain ⟨nonempty, bears⟩ := good
  have place := sought page (ascends.sublist (sublist_listed page)) target
  obtain ⟨made, keys, below⟩ := page
  rw [takeInner]
  cases place with
  | @held front same key behind parts rank holds equal lies =>
    obtain rfl : keys = front ++ same :: behind := parts
    obtain ⟨lefts, left, rest, rfl, even, others⟩ := bears.exists_focus rfl
    obtain ⟨right, rights, rfl⟩ := List.exists_cons_of_length_eq_add_one others
    simp only [rank, if_pos holds]
    split
    · next gives =>
      have large := two_le_of_canGive (getElem?_place even) gives
      exact removes_pullUp_greatest takes even bears ascends large equal
    · split
      · next gives =>
        have large := two_le_of_canGive (getElem?_next even) gives
        exact removes_pullUp_least takes even bears ascends large equal
      · have between := ascends
        rw [listed_window even] at between
        exact removes_takeJoined takes even bears ascends (liesBetween_focus even between lies)
  | @missing _ front behind parts rank holds lies =>
    obtain rfl : keys = front ++ behind := parts
    obtain ⟨lefts, lower, rights, rfl, even, others⟩ := bears.exists_focus rfl
    have between := ascends
    rw [listed_focus even] at between
    have between := liesBetween_target even between lies
    simp only [rank, holds, Bool.false_eq_true, if_false]
    split
    · next gives =>
      have large := two_le_of_canGive (getElem?_place even) gives
      exact removes_takeBelow takes even bears ascends large between
    split
    · next gives =>
      -- There is a page before, with a key behind it.
      cases front using List.reverseRecOn with
      | nil => exact absurd gives.1 (Nat.lt_irrefl 0)
      | append_singleton front middle =>
        cases lefts using List.reverseRecOn with
        | nil => simp at even
        | append_singleton lefts left =>
          replace even : lefts.length = front.length := by simpa using even
          rw [listedBefore_concat even] at between
          simp only [List.length_append, List.length_singleton, Nat.add_sub_cancel,
            List.append_assoc, List.cons_append, List.nil_append] at gives bears ascends ⊢
          have large := two_le_of_canGive (getElem?_place even) gives.2
          exact removes_takeBehind takes even bears ascends large between
    split
    · next gives =>
      -- There is a page behind, with a key before it.
      cases rights with
      | nil => simp [canGive, ← even] at gives
      | cons right rights =>
        obtain ⟨middle, behind, rfl⟩ := List.exists_cons_of_length_eq_add_one others.symm
        have large := two_le_of_canGive (getElem?_next even) gives
        exact removes_takeBefore takes even bears ascends large between
    split
    · next inside =>
      cases behind with
      | nil => simp at inside
      | cons middle behind =>
        obtain ⟨right, rights, rfl⟩ := List.exists_cons_of_length_eq_add_one others
        refine removes_takeJoined takes even bears ascends
          (between.mono (List.Subset.refl _) fun known member => ?_)
        rw [listedBehind_cons]
        exact List.mem_cons_of_mem _ (List.mem_append_right _ member)
    · next outside =>
      cases front using List.reverseRecOn with
      | nil => exact absurd (by simpa using outside) nonempty
      | append_singleton front middle =>
        cases lefts using List.reverseRecOn with
        | nil => simp at even
        | append_singleton lefts left =>
          replace even : lefts.length = front.length := by simpa using even
          rw [listedBefore_concat even] at between
          simp only [List.length_append, List.length_singleton, Nat.add_sub_cancel,
            List.append_assoc, List.cons_append, List.nil_append] at bears ascends ⊢
          exact removes_takeJoined takes even bears ascends
            (between.mono (List.subset_append_left _ _) (List.Subset.refl _))

/-- A target is taken off pages of any height. -/
theorem removes_erase [TransOrd κ] (edit : Nat) (height : Nat) (target : Target κ)
    (page : Level κ height) (good : (ofHeight height).above.good page)
    (ascends : Ascends ((ofHeight height).listed page)) :
    (ofHeight height).Removes target page (Page.erase edit height target page) := by
  induction height generalizing target with
  | zero =>
    have lists := good.2.listed_of_lowest rfl
    exact removes_takeLowest good.2 rfl (lists ▸ ascends) edit (.inl good.1)
  | succ height ih =>
    exact removes_takeInner (fun target page => ih target page) edit target good ascends

end Floor

namespace Pages

open Page Floor

variable {κ : Type}

/-- Where the page above all others holds no key, the one page below it takes its place. -/
theorem settle_spec {height : Nat} {top : Level κ height} (bears : (ofHeight height).Bears top) :
    (settle height top).IsSound ∧ (settle height top).keys = (ofHeight height).listed top := by
  cases height with
  | zero => exact ⟨⟨bears, fun higher => absurd rfl higher⟩, rfl⟩
  | succ height =>
    obtain ⟨edit, keys, below⟩ := top
    obtain ⟨length, parts⟩ := bears_above_iff.1 bears
    cases keys with
    | nil =>
      obtain ⟨top, rfl⟩ := List.length_eq_one_iff.1 length
      have good := parts top List.mem_cons_self
      exact ⟨⟨good.2, fun _ => good.1⟩, rfl⟩
    | cons key keys => exact ⟨⟨bears, fun _ => List.cons_ne_nil key keys⟩, rfl⟩

variable [Ord κ] [TransOrd κ]

/-- A key that is taken off sound pages leaves all others, and they stay sound. -/
theorem erase_spec {pages : Pages κ} (sound : pages.IsSound) (ascends : Ascends pages.keys)
    (edit : Nat) (key : κ) :
    (pages.erase edit key).IsSound ∧ (pages.erase edit key).keys = without key pages.keys := by
  obtain ⟨height, top⟩ := pages
  have removes :
      (ofHeight height).Removes (.key key) top (Page.erase edit height (.key key) top) := by
    cases height with
    | zero =>
      have lists := sound.bears.listed_of_lowest rfl
      exact removes_takeLowest sound.bears rfl (lists ▸ ascends) edit (.inr ⟨key, rfl⟩)
    | succ height =>
      exact removes_erase edit _ _ top
        ⟨sound.nonempty (Nat.succ_ne_zero height), sound.bears⟩ ascends
  rw [erase]
  generalize Page.erase edit height (.key key) top = removal at removes ⊢
  change Ascends ((ofHeight height).listed top) at ascends
  show _ ∧ _ = without key ((ofHeight height).listed top)
  cases removes with
  | @found left front known behind bears less before after picks =>
    obtain ⟨settled, keys⟩ := settle_spec bears
    rw [before] at ascends ⊢
    refine ⟨settled, keys.trans ?_⟩
    exact (after.trans ((LiesBetween.of_ascends ascends picks).without_same picks).symm)
  | @missed left sought keeps seeks absent =>
    cases seeks
    obtain ⟨settled, keys⟩ := settle_spec (keeps.bears sound.bears)
    have all : without key ((ofHeight height).listed top) = (ofHeight height).listed top :=
      List.filter_eq_self.2 fun known member => by
        simpa [OrientedCmp.eq_comm] using absent known member
    exact ⟨settled, keys.trans (keeps.listed.trans all.symm)⟩

end Pages

end FormPatch
