import FormPatch.Proofs.Page.Listing
import Mathlib.Data.List.TakeWhile

/-!
# Putting keys on sound pages

A new key has one place among ascending keys, between the smaller and the greater ones, and the way
down the pages leads there. A page that holds too much afterwards falls apart around the key in its
middle.

Main statement: putting a key on sound pages that list ascending keys leaves sound pages that list
the key in its place among these, over one that compares equal.
-/

namespace FormPatch

open Std

namespace Page

variable {κ γ : Type}

section Order

variable [Ord κ]

/-- Whether keys ascend. -/
def Ascends (keys : List κ) : Prop := keys.Pairwise fun left right => compare left right = .lt

/-- Keys between others ascend when all of them do. -/
theorem Ascends.middle {before middle behind : List κ}
    (ascends : Ascends (before ++ (middle ++ behind))) : Ascends middle :=
  (List.pairwise_append.1 (List.pairwise_append.1 ascends).2.1).1

/-- Keys with one more in its place, over what compares equal to it. -/
def put (key : κ) (keys : List κ) : List κ :=
  keys.filter (fun known => compare known key == .lt) ++
    key :: keys.filter (fun known => compare key known == .lt)

/-- Keys without those that compare equal to one. -/
def without (key : κ) (keys : List κ) : List κ := keys.filter fun known => compare key known != .eq

/-- Whether a key lies between smaller ones and greater ones. -/
structure LiesBetween (before : List κ) (key : κ) (behind : List κ) : Prop where
  /-- The keys before are smaller. -/
  before : ∀ known ∈ before, compare known key = .lt
  /-- The keys behind are greater. -/
  behind : ∀ known ∈ behind, compare key known = .lt

variable [TransOrd κ] {key : κ} {before behind : List κ}

/-- Between smaller and greater keys a key is put among those in the middle. -/
theorem LiesBetween.put_append (lies : LiesBetween before key behind) (middle : List κ) :
    put key (before ++ (middle ++ behind)) = before ++ (put key middle ++ behind) := by
  have smaller : before.filter (fun known => compare known key == .lt) = before :=
    List.filter_eq_self.2 fun known member => beq_iff_eq.2 (lies.before known member)
  have notGreater : before.filter (fun known => compare key known == .lt) = [] :=
    List.filter_eq_nil_iff.2 fun known member => by
      simp [OrientedCmp.gt_iff_lt.2 (lies.before known member)]
  have greater : behind.filter (fun known => compare key known == .lt) = behind :=
    List.filter_eq_self.2 fun known member => beq_iff_eq.2 (lies.behind known member)
  have notSmaller : behind.filter (fun known => compare known key == .lt) = [] :=
    List.filter_eq_nil_iff.2 fun known member => by
      simp [OrientedCmp.gt_iff_lt.2 (lies.behind known member)]
  simp [put, smaller, notGreater, greater, notSmaller]

/-- Between smaller and greater keys a key takes the place of one that compares equal. -/
theorem LiesBetween.put_same (lies : LiesBetween before key behind) {same : κ}
    (equal : compare same key = .eq) :
    put key (before ++ same :: behind) = before ++ key :: behind := by
  have alone : put key [same] = [key] := by simp [put, equal, OrientedCmp.eq_symm equal]
  simpa [alone] using lies.put_append [same]

/-- Between smaller and greater keys a key finds its place. -/
theorem LiesBetween.put_new (lies : LiesBetween before key behind) :
    put key (before ++ behind) = before ++ key :: behind := by
  simpa [put] using lies.put_append []

/-- Between smaller and greater keys only one is left out that compares equal. -/
theorem LiesBetween.without_same (lies : LiesBetween before key behind) {same : κ}
    (equal : compare same key = .eq) :
    without key (before ++ same :: behind) = before ++ behind := by
  have smaller : before.filter (fun known => compare key known != .eq) = before :=
    List.filter_eq_self.2 fun known member => by
      simp [OrientedCmp.gt_iff_lt.2 (lies.before known member)]
  have greater : behind.filter (fun known => compare key known != .eq) = behind :=
    List.filter_eq_self.2 fun known member => by simp [lies.behind known member]
  simp [without, smaller, greater, OrientedCmp.eq_symm equal]

/-- Among ascending keys each lies between the others, and so does what compares equal to it. -/
theorem LiesBetween.of_ascends {same : κ} (ascends : Ascends (before ++ same :: behind))
    (equal : compare same key = .eq) : LiesBetween before key behind := by
  obtain ⟨-, others, smaller⟩ := List.pairwise_append.1 ascends
  exact ⟨fun known member => TransCmp.lt_of_lt_of_eq (smaller known member same (by simp)) equal,
    fun known member => TransCmp.lt_of_eq_of_lt (OrientedCmp.eq_symm equal)
      ((List.pairwise_cons.1 others).1 known member)⟩

/-- What stands before smaller keys, one behind each part, is smaller. -/
theorem lt_of_mem_interleave {lefts : List (List κ)} {front : List κ}
    (even : lefts.length = front.length) (ascends : Ascends (interleave lefts front))
    (below : ∀ known ∈ front, compare known key = .lt) :
    ∀ known ∈ interleave lefts front, compare known key = .lt := by
  cases front using List.reverseRecOn with
  | nil =>
    obtain rfl := List.length_eq_zero_iff.1 even
    simp [interleave]
  | append_singleton front last =>
    -- The last key stands behind everything else.
    have nothing : lefts.drop (front.length + 1) = [] := by simp [even]
    rw [interleave_append, nothing] at ascends ⊢
    have smaller : compare last key = .lt := below last (by simp)
    intro known member
    rcases List.mem_append.1 member with member | member
    · exact TransCmp.lt_trans
        ((List.pairwise_append.1 ascends).2.2 known member last (by simp)) smaller
    · obtain rfl : known = last := by simpa [interleave] using member
      exact smaller

/-- What stands behind greater keys, one before each part, is greater. -/
theorem gt_of_mem_interleave {rights : List (List κ)} {behind : List κ}
    (ascends : Ascends (interleave ([] :: rights) behind))
    (above : ∀ known ∈ behind, compare key known = .lt) :
    ∀ known ∈ interleave ([] :: rights) behind, compare key known = .lt := by
  cases behind with
  | nil => simp [interleave]
  | cons first behind =>
    have greater : compare key first = .lt := above first List.mem_cons_self
    intro known member
    rcases List.mem_cons.1 member with rfl | member
    · exact greater
    · exact TransCmp.lt_trans greater ((List.pairwise_cons.1 ascends).1 known member)

/-- Where a key lies among those of a page. -/
inductive Ranked (page : Page κ γ) (key : κ) : Prop where
  /-- The page holds a key that compares equal. -/
  | held (front : List κ) (same : κ) (behind : List κ) (keys : page.keys = front ++ same :: behind)
    (rank : page.rank key = front.length) (holds : page.holds key = true)
    (equal : compare same key = .eq) (lies : LiesBetween front key behind)
  /-- The page holds only others. -/
  | missing (front behind : List κ) (keys : page.keys = front ++ behind)
    (rank : page.rank key = front.length) (holds : page.holds key = false)
    (lies : LiesBetween front key behind)

/-- Among ascending keys each key has its place. -/
theorem ranked {page : Page κ γ} (ascends : Ascends page.keys) (key : κ) : page.Ranked key := by
  let smaller (known : κ) : Bool := compare known key == .lt
  have parts : page.keys = page.keys.takeWhile smaller ++ page.keys.dropWhile smaller :=
    List.takeWhile_append_dropWhile.symm
  have below : ∀ known ∈ page.keys.takeWhile smaller, compare known key = .lt :=
    fun known member => beq_iff_eq.1 (List.mem_takeWhile_imp (p := smaller) member)
  have apart : ∀ known ∈ page.keys.takeWhile smaller, compare known key ≠ .eq :=
    fun known member same => by simp [below known member] at same
  rw [Ascends, parts] at ascends
  cases behind : page.keys.dropWhile smaller with
  | nil =>
    rw [behind] at parts
    refine .missing _ [] parts rfl ?_ ⟨below, by simp⟩
    rw [holds, parts, List.append_nil]
    simpa [List.any_eq_false] using apart
  | cons first others =>
    have notSmaller : compare first key ≠ .lt := by
      have head := List.head?_dropWhile_not smaller page.keys
      simpa [behind, smaller] using head
    rw [behind] at ascends parts
    have greater : ∀ known ∈ others, compare first known = .lt :=
      (List.pairwise_cons.1 (List.pairwise_append.1 ascends).2.1).1
    cases order : compare first key with
    | lt => exact absurd order notSmaller
    | eq =>
      refine .held _ first others parts rfl ?_ order
        ⟨below, fun known member => TransCmp.lt_of_eq_of_lt (OrientedCmp.eq_symm order)
          (greater known member)⟩
      rw [holds, parts]
      simp [order]
    | gt =>
      have above : ∀ known ∈ first :: others, compare key known = .lt := by
        have first_gt : compare key first = .lt := OrientedCmp.gt_iff_lt.1 order
        exact List.forall_mem_cons.2 ⟨first_gt, fun known member =>
          TransCmp.lt_trans first_gt (greater known member)⟩
      refine .missing _ (first :: others) parts rfl ?_ ⟨below, above⟩
      rw [holds, parts, List.any_append, Bool.or_eq_false_iff]
      refine ⟨by simpa [List.any_eq_false] using apart, List.any_eq_false.2 fun known member => ?_⟩
      simp [OrientedCmp.gt_iff_lt.2 (above known member)]

end Order

end Page

namespace Floor

open Page

variable {κ γ : Type} {floor : Floor κ γ}

/-- What becomes of a page when it comes to list some keys. -/
inductive Grows (floor : Floor κ γ) : Growth κ γ → List κ → Prop where
  /-- It is still one sound page. -/
  | whole {page : Page κ γ} (good : floor.above.good page) : Grows floor (.whole page)
    (floor.listed page)
  /-- It is two sound pages around a key. -/
  | split {left right : Page κ γ} {middle : κ} (first : floor.above.good left)
    (second : floor.above.good right) :
    Grows floor (.split left middle right) (floor.listed left ++ middle :: floor.listed right)

/-- A page that is split where it holds too much still lists the same keys. -/
theorem grows_grow {page : Page κ γ} (good : floor.above.good page) :
    floor.Grows page.grow (floor.listed page) := by
  rw [grow]
  split
  · exact .whole good
  · next full =>
    split
    · exact .whole good
    · next middle right cut =>
      obtain ⟨edit, keys, below⟩ := page
      simp only [capacity, half, Nat.not_le] at full cut ⊢
      -- The halves are those around the key in the middle.
      have front : (keys.take 32).length = 32 := by
        rw [List.length_take]
        omega
      have behind : right.length + 33 = keys.length := by
        have lengths := congrArg List.length cut
        simp only [List.length_drop, List.length_cons] at lengths
        omega
      have whole : keys = keys.take 32 ++ middle :: right := by
        rw [← cut, List.take_append_drop]
      have bears := good.2
      rw [whole] at bears
      have halves := bears.cut
      have same := listed_cut floor edit (keys.take 32) middle right below
      rw [← whole, front] at same
      rw [front] at halves
      rw [same]
      have left : 0 < (keys.take 32).length := by omega
      have positive : 0 < right.length := by omega
      exact .split ⟨List.ne_nil_of_length_pos left, halves.1⟩
        ⟨List.ne_nil_of_length_pos positive, halves.2⟩

/-- A page that grew whole lists the keys that it was to list. -/
theorem Grows.of_eq {page : Page κ γ} {keys : List κ} (good : floor.above.good page)
    (lists : floor.listed page = keys) : floor.Grows (.whole page) keys :=
  lists ▸ .whole good

section Order

variable [Ord κ] [TransOrd κ]

/-- A key that lies between those beside its place on a page lies between all keys before and
behind it. -/
theorem liesBetween_focus {key : κ} {front behind : List κ} {lefts rights : List (Page κ γ)}
    {middle : List κ} (even : lefts.length = front.length)
    (ascends : Ascends (floor.listedBefore lefts front ++
      (middle ++ floor.listedBehind rights behind)))
    (lies : LiesBetween front key behind) :
    LiesBetween (floor.listedBefore lefts front) key (floor.listedBehind rights behind) := by
  obtain ⟨before, others, -⟩ := List.pairwise_append.1 ascends
  exact ⟨lt_of_mem_interleave (by simpa using even) before lies.before,
    gt_of_mem_interleave (List.pairwise_append.1 others).2.1 lies.behind⟩

/-- A key is put in its place on a lowest page. -/
theorem grows_lowest (edit : Nat) (key : κ) (page : Level κ 0) (ascends : Ascends page.keys) :
    (ofHeight 0).Grows (Page.insert edit key 0 page) (put key page.keys) := by
  obtain ⟨made, keys, below⟩ := page
  rw [Page.insert]
  cases ranked ascends key with
  | held front same behind parts rank holds equal lies =>
    obtain rfl : keys = front ++ same :: behind := parts
    rw [if_pos holds, rank, lies.put_same equal]
    exact .of_eq ⟨by simp, rfl, by simp⟩ (by simp)
  | missing front behind parts rank holds lies =>
    obtain rfl : keys = front ++ behind := parts
    rw [if_neg (by simp [holds]), rank, lies.put_new]
    simp only [insertIdx_place rfl]
    have grown : (ofHeight 0).Grows (grow ⟨edit, front ++ key :: behind, []⟩) _ :=
      grows_grow ⟨by simp, rfl, by simp⟩
    rwa [listed_lone] at grown

/-- A key is put in its place on a page when it is put in its place on each page below. -/
theorem grows_insertInner {insert : Page κ γ → Growth κ γ} {edit : Nat} {key : κ}
    (inserts : ∀ lower, floor.above.good lower → Ascends (floor.listed lower) →
      floor.Grows (insert lower) (put key (floor.listed lower)))
    {page : Page κ (Page κ γ)} (good : floor.above.above.good page)
    (ascends : Ascends (floor.above.listed page)) :
    floor.above.Grows (page.insertInner insert edit key) (put key (floor.above.listed page)) := by
  obtain ⟨made, keys, below⟩ := page
  obtain ⟨nonempty, bears⟩ := good
  have inOrder : Ascends keys := ascends.sublist (sublist_listed ⟨made, keys, below⟩)
  have place : Ranked ⟨made, keys, below⟩ key := ranked inOrder key
  rw [insertInner]
  cases place with
  | held front same behind parts rank holds equal lies =>
    obtain rfl : keys = front ++ same :: behind := parts
    rw [listed_cut] at ascends ⊢
    rw [if_pos holds, rank, (LiesBetween.of_ascends ascends equal).put_same equal]
    refine .of_eq ⟨by simp, bears_above_iff.2 ?_⟩ ?_
    · simpa using bears_above_iff.1 bears
    · simp only [set_place rfl]
      exact listed_cut ..
  | missing front behind parts rank holds lies =>
    obtain rfl : keys = front ++ behind := parts
    obtain ⟨lefts, lower, rights, rfl, even, -⟩ := bears.exists_focus rfl
    rw [listed_focus even] at ascends ⊢
    have between := liesBetween_focus even ascends lies
    have grows := inserts lower (bears.good lower (by simp)) ascends.middle
    rw [if_neg (by simp [holds]), rank, between.put_append]
    simp only [getElem?_place even, set_place even]
    generalize insert lower = growth at grows ⊢
    generalize put key (floor.listed lower) = grown at grows ⊢
    cases grows with
    | @whole page good => exact .of_eq ⟨nonempty, bears.replace good⟩ (listed_focus even page)
    | @split left right middle first second =>
      simp only [insertIdx_place rfl, insertIdx_next even]
      rw [← listed_window even]
      exact grows_grow ⟨by simp, bears.replace_split first second middle⟩

/-- A key is put in its place on pages of any height. -/
theorem grows_insert (edit : Nat) (key : κ) (height : Nat) (page : Level κ height)
    (bears : (ofHeight height).Bears page) (nonempty : height ≠ 0 → page.keys ≠ [])
    (ascends : Ascends ((ofHeight height).listed page)) :
    (ofHeight height).Grows (Page.insert edit key height page)
      (put key ((ofHeight height).listed page)) := by
  induction height with
  | zero =>
    rw [bears.listed_of_lowest rfl] at ascends ⊢
    exact grows_lowest edit key page ascends
  | succ height ih =>
    exact grows_insertInner (fun lower good ascends => ih lower good.2 (fun _ => good.1) ascends)
      ⟨nonempty (Nat.succ_ne_zero height), bears⟩ ascends

end Order

end Floor

namespace Pages

open Page

variable {κ : Type} [Ord κ]

/-- A key that is put on sound pages comes in its place, and they stay sound. -/
theorem insert_spec [TransOrd κ] {pages : Pages κ} (sound : pages.IsSound)
    (ascends : Ascends pages.keys) (edit : Nat) (key : κ) :
    (pages.insert edit key).IsSound ∧ (pages.insert edit key).keys = put key pages.keys := by
  have grows := Floor.grows_insert edit key pages.height pages.top sound.bears sound.nonempty
    ascends
  rw [insert]
  generalize Page.insert edit key pages.height pages.top = growth at grows ⊢
  change (Floor.ofHeight pages.height).Grows growth (put key pages.keys) at grows
  generalize put key pages.keys = grown at grows ⊢
  cases grows with
  | whole good => exact ⟨⟨good.2, fun _ => good.1⟩, rfl⟩
  | split first second =>
    refine ⟨⟨Floor.bears_above_iff.2 ⟨rfl, ?_⟩, fun _ => by simp⟩, rfl⟩
    exact List.forall_mem_cons.2 ⟨first, List.forall_mem_singleton.2 second⟩

end Pages

end FormPatch
