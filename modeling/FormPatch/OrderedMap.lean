/-!
# Ordered maps

A finite map as the list of its entries in strictly ascending order of their keys. Keys that
compare equal need not be the same: a map keeps one entry for all of them, and inserting replaces
the key as well as the value.

Main statements: how a look-up sees each operation.
-/

namespace FormPatch

open Std

/-- A finite map, as entries with strictly ascending keys. -/
structure OrderedMap (κ ν : Type) [Ord κ] where
  /-- The entries in order. -/
  entries : List (κ × ν)
  /-- No two keys compare equal, and smaller keys come first. -/
  ascending : entries.Pairwise fun left right => compare left.1 right.1 = .lt

namespace OrderedMap

variable {κ ν : Type} [Ord κ]

/-- Puts an entry into its place among ascending ones, over one whose key compares equal. -/
def place (key : κ) (value : ν) : List (κ × ν) → List (κ × ν)
  | [] => [(key, value)]
  | entry :: rest =>
    match compare key entry.1 with
    | .lt => (key, value) :: entry :: rest
    | .eq => (key, value) :: rest
    | .gt => entry :: place key value rest

/-- Of what stands among entries behind a placing, only the placed entry is new. -/
theorem mem_place {key : κ} {value : ν} {entries : List (κ × ν)} {entry : κ × ν}
    (h : entry ∈ place key value entries) : entry = (key, value) ∨ entry ∈ entries := by
  induction entries with
  | nil => simpa [place] using h
  | cons first rest ih =>
    unfold place at h
    split at h
    · simpa using h
    · rcases List.mem_cons.1 h with h | h
      · exact .inl h
      · exact .inr (List.mem_cons_of_mem _ h)
    · rcases List.mem_cons.1 h with h | h
      · exact .inr (h ▸ List.mem_cons_self)
      · exact (ih h).imp_right (List.mem_cons_of_mem _)

/-- Placing an entry among ascending ones keeps them ascending. -/
theorem ascending_place [TransOrd κ] {entries : List (κ × ν)} (key : κ) (value : ν)
    (ascending : entries.Pairwise fun left right => compare left.1 right.1 = .lt) :
    (place key value entries).Pairwise fun left right => compare left.1 right.1 = .lt := by
  induction entries with
  | nil => simp [place]
  | cons first rest ih =>
    obtain ⟨below, others⟩ := List.pairwise_cons.1 ascending
    unfold place
    split
    · next less =>
      refine List.pairwise_cons.2 ⟨fun entry member => ?_, ascending⟩
      rcases List.mem_cons.1 member with rfl | member
      · exact less
      · exact TransCmp.lt_trans less (below entry member)
    · next same =>
      refine List.pairwise_cons.2 ⟨fun entry member => ?_, others⟩
      exact TransCmp.lt_of_eq_of_lt same (below entry member)
    · next greater =>
      refine List.pairwise_cons.2 ⟨fun entry member => ?_, ih others⟩
      rcases mem_place member with rfl | member
      · exact OrientedCmp.gt_iff_lt.1 greater
      · exact below entry member

/-- The map without entries. -/
def empty : OrderedMap κ ν := ⟨[], .nil⟩

instance : Inhabited (OrderedMap κ ν) := ⟨empty⟩

/-- The map with a key and its value, in the place of what an equal key had. -/
def insert [TransOrd κ] (map : OrderedMap κ ν) (key : κ) (value : ν) : OrderedMap κ ν :=
  ⟨place key value map.entries, ascending_place key value map.ascending⟩

/-- The map without a key. -/
def erase (map : OrderedMap κ ν) (key : κ) : OrderedMap κ ν :=
  ⟨map.entries.filter fun entry => compare key entry.1 != .eq, map.ascending.filter _⟩

/-- The value of a key. -/
def get? (map : OrderedMap κ ν) (key : κ) : Option ν :=
  (map.entries.find? fun entry => compare key entry.1 == .eq).map Prod.snd

/-- Whether a key has a value. -/
def contains (map : OrderedMap κ ν) (key : κ) : Bool := (map.get? key).isSome

/-- The map with the value of one key changed and every key kept as it is. -/
def modify (map : OrderedMap κ ν) (key : κ) (change : ν → ν) : OrderedMap κ ν :=
  ⟨map.entries.map fun entry =>
      if compare key entry.1 == .eq then (entry.1, change entry.2) else entry, by
    refine List.pairwise_map.2 (map.ascending.imp fun {left right} less => ?_)
    split <;> split <;> exact less⟩

/-- The number of entries. -/
def size (map : OrderedMap κ ν) : Nat := map.entries.length

/-- The map of a list of entries, of which a later one replaces an earlier one with an equal
key. -/
def ofList [TransOrd κ] (entries : List (κ × ν)) : OrderedMap κ ν :=
  entries.foldl (fun map entry => map.insert entry.1 entry.2) empty

/-- Maps with the same entries are one map. -/
theorem ext {left right : OrderedMap κ ν} (h : left.entries = right.entries) : left = right := by
  cases left
  cases right
  simpa using h

/-- An entry whose key is greater than all others comes last. -/
theorem place_of_below [TransOrd κ] {key : κ} {entries : List (κ × ν)} (value : ν)
    (below : ∀ entry ∈ entries, compare entry.1 key = .lt) :
    place key value entries = entries ++ [(key, value)] := by
  induction entries with
  | nil => rfl
  | cons first rest ih =>
    have greater : compare key first.1 = .gt :=
      OrientedCmp.gt_iff_lt.2 (below first List.mem_cons_self)
    rw [place, greater, List.cons_append]
    exact congrArg (first :: ·) (ih fun entry member => below entry (List.mem_cons_of_mem _ member))

/-- A map is the map of its entries. -/
theorem ofList_entries [TransOrd κ] (map : OrderedMap κ ν) : ofList map.entries = map := by
  have inserted (behind : List (κ × ν)) (front : OrderedMap κ ν)
      (ascending : (front.entries ++ behind).Pairwise
        fun left right => compare left.1 right.1 = .lt) :
      (behind.foldl (fun map entry => map.insert entry.1 entry.2) front).entries =
        front.entries ++ behind := by
    induction behind generalizing front with
    | nil => exact (List.append_nil _).symm
    | cons entry behind ih =>
      have below : ∀ other ∈ front.entries, compare other.1 entry.1 = .lt :=
        fun other member => (List.pairwise_append.1 ascending).2.2 other member entry
          List.mem_cons_self
      have placed : (front.insert entry.1 entry.2).entries = front.entries ++ [entry] :=
        place_of_below entry.2 below
      have split : front.entries ++ [entry] ++ behind = front.entries ++ entry :: behind :=
        (List.append_cons _ _ _).symm
      rw [List.foldl_cons, ih _ (by rwa [placed, split]), placed, split]
  exact ext (inserted map.entries empty map.ascending)

/-- Under a key that compares equal to the inserted one stands the inserted value, and under any
other key what stood there before. -/
theorem get?_insert [TransOrd κ] (map : OrderedMap κ ν) (key : κ) (value : ν) (other : κ) :
    (map.insert key value).get? other =
      if compare other key = .eq then some value else map.get? other := by
  obtain ⟨entries, ascending⟩ := map
  simp only [insert, get?]
  induction entries with
  | nil => by_cases same : compare other key = .eq <;> simp [place, same]
  | cons first rest ih =>
    obtain ⟨below, others⟩ := List.pairwise_cons.1 ascending
    have later := ih others
    unfold place
    split
    · next less =>
      by_cases same : compare other key = .eq <;> simp [List.find?_cons, same]
    · next equal =>
      by_cases same : compare other key = .eq
      · simp [same]
      · have apart : compare other first.1 ≠ .eq := fun h =>
          same (TransCmp.eq_trans h (OrientedCmp.eq_symm equal))
        simp [same, apart]
    · next greater =>
      by_cases found : compare other first.1 = .eq
      · have apart : compare other key ≠ .eq := fun h => by
          have equal := TransCmp.eq_trans (OrientedCmp.eq_symm h) found
          rw [greater] at equal
          cases equal
        simp [found, apart]
      · simpa [List.find?_cons, found] using later

/-- Nothing stands under a key that compares equal to the erased one. -/
theorem get?_erase [TransOrd κ] (map : OrderedMap κ ν) (key other : κ) :
    (map.erase key).get? other = if compare other key = .eq then none else map.get? other := by
  obtain ⟨entries, ascending⟩ := map
  simp only [erase, get?]
  induction entries with
  | nil => simp
  | cons first rest ih =>
    obtain ⟨below, others⟩ := List.pairwise_cons.1 ascending
    have later := ih others
    by_cases gone : compare key first.1 = .eq
    · by_cases same : compare other key = .eq
      · simpa [gone, same] using later
      · have apart : compare other first.1 ≠ .eq := fun h =>
          same (TransCmp.eq_trans h (OrientedCmp.eq_symm gone))
        simpa [List.find?_cons, gone, same, apart] using later
    · by_cases found : compare other first.1 = .eq
      · have apart : compare other key ≠ .eq := fun h =>
          gone (TransCmp.eq_trans (OrientedCmp.eq_symm h) found)
        simp [gone, found, apart]
      · simpa [List.find?_cons, gone, found] using later

/-- The value under a key is that of the one entry whose key compares equal. -/
theorem get?_of_mem [TransOrd κ] (map : OrderedMap κ ν) {key : κ} {entry : κ × ν}
    (member : entry ∈ map.entries) (same : compare key entry.1 = .eq) :
    map.get? key = some entry.2 := by
  obtain ⟨entries, ascending⟩ := map
  simp only [get?]
  induction entries with
  | nil => cases member
  | cons first rest ih =>
    obtain ⟨below, others⟩ := List.pairwise_cons.1 ascending
    rcases List.mem_cons.1 member with rfl | member
    · simp [same]
    · have apart : compare key first.1 ≠ .eq := fun found => by
        have equal := TransCmp.eq_trans (OrientedCmp.eq_symm found) same
        rw [below entry member] at equal
        cases equal
      simpa [List.find?_cons, apart] using ih others member

/-- Under a key that compares equal to the changed one stands the changed value, and under any
other key what stood there before. -/
theorem get?_modify [TransOrd κ] (map : OrderedMap κ ν) (key : κ) (change : ν → ν) (other : κ) :
    (map.modify key change).get? other =
      if compare other key = .eq then (map.get? other).map change else map.get? other := by
  obtain ⟨entries, ascending⟩ := map
  simp only [modify, get?]
  induction entries with
  | nil => simp
  | cons first rest ih =>
    obtain ⟨_, others⟩ := List.pairwise_cons.1 ascending
    have later := ih others
    by_cases found : compare other first.1 = .eq
    · have equal : compare key first.1 = .eq ↔ compare other key = .eq :=
        ⟨fun h => TransCmp.eq_trans found (OrientedCmp.eq_symm h),
          fun h => TransCmp.eq_trans (OrientedCmp.eq_symm h) found⟩
      by_cases same : compare other key = .eq
      · simp [found, same, equal.2 same]
      · have apart : compare key first.1 ≠ .eq := fun h => same (equal.1 h)
        simp [found, same, apart]
    · by_cases touched : compare key first.1 = .eq
      · simpa [List.find?_cons, touched, found] using later
      · simpa [List.find?_cons, touched, found] using later

/-- Changes that agree on the value under a key are one change of the map. -/
theorem modify_congr [TransOrd κ] {map : OrderedMap κ ν} {key : κ} {first second : ν → ν}
    (agree : ∀ value, map.get? key = some value → first value = second value) :
    map.modify key first = map.modify key second := by
  refine ext (List.map_congr_left fun entry member => ?_)
  split
  · next touched => rw [agree entry.2 (map.get?_of_mem member (beq_iff_eq.1 touched))]
  · rfl

/-- Leaving a value as it is leaves the map as it is. -/
theorem modify_id (map : OrderedMap κ ν) (key : κ) : map.modify key id = map := by
  refine ext ?_
  simp [modify]

/-- Two changes of one value are one change. -/
theorem modify_modify (map : OrderedMap κ ν) (key : κ) (first second : ν → ν) :
    (map.modify key first).modify key second = map.modify key (second ∘ first) := by
  refine ext ?_
  simp only [modify, List.map_map]
  refine List.map_congr_left fun entry _ => ?_
  by_cases touched : compare key entry.1 = .eq <;> simp [touched]

end OrderedMap

end FormPatch
