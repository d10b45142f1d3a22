/-!
Distributes items over numbered groups in one pass. Groups are numbered from one, an item
of any other number is left out, and every group keeps the order of its items
(`getElem_byNumber`). Groups can be taken out one by one.
-/

namespace PortablePdb.Grouping

variable {α : Type}

def put (number : Nat) (a : α) (groups : Array (List α)) : Array (List α) :=
  if number = 0 then groups else groups.modify (number - 1) (a :: ·)

def byNumber (count : Nat) (items : List (Nat × α)) : Array (List α) :=
  items.foldr (fun item groups => put item.1 item.2 groups) (Array.replicate count [])

def group (number : Nat) (groups : Array (List α)) : List α :=
  if number = 0 then [] else groups[number - 1]?.getD []

/-- Takes a group out. An empty one is left in its place. -/
def take (number : Nat) (groups : Array (List α)) : List α × Array (List α) :=
  (group number groups, if number = 0 then groups else groups.setIfInBounds (number - 1) [])

def itemsOf (number : Nat) (items : List (Nat × α)) : List α :=
  (items.filter (·.1 = number)).map (·.2)

@[simp] theorem size_put (number : Nat) (a : α) (groups : Array (List α)) :
    (put number a groups).size = groups.size := by
  unfold put
  split <;> simp

@[simp] theorem size_byNumber (count : Nat) (items : List (Nat × α)) :
    (byNumber count items).size = count := by
  induction items with
  | nil => simp [byNumber]
  | cons item rest ih => simpa [byNumber] using ih

theorem getElem_byNumber (count : Nat) (items : List (Nat × α)) (i : Nat)
    (h : i < (byNumber count items).size) :
    (byNumber count items)[i] = itemsOf (i + 1) items := by
  induction items with
  | nil => simp [byNumber, itemsOf]
  | cons item rest ih =>
    have tail := ih (by simpa using h)
    have cons : byNumber count (item :: rest) = put item.1 item.2 (byNumber count rest) :=
      rfl
    simp only [cons, put]
    by_cases zero : item.1 = 0
    · simp [zero, itemsOf, tail]
    · by_cases same : item.1 = i + 1
      · simp [same, itemsOf, tail, Array.getElem_modify]
      · have other : item.1 - 1 ≠ i := by omega
        simp [zero, same, itemsOf, tail, Array.getElem_modify, other]

theorem group_byNumber {count number : Nat} (items : List (Nat × α)) (hpos : 1 ≤ number)
    (hle : number ≤ count) :
    group number (byNumber count items) = itemsOf number items := by
  have hlt : number - 1 < (byNumber count items).size := by
    rw [size_byNumber]
    omega
  rw [group, if_neg (by omega), Array.getElem?_eq_getElem hlt, Option.getD_some,
    getElem_byNumber, Nat.sub_add_cancel hpos]

/-- The other groups stay where they are. -/
theorem group_take_of_ne {number other : Nat} (h : other ≠ number)
    (groups : Array (List α)) :
    group other (take number groups).2 = group other groups := by
  by_cases hother : other = 0
  · simp [group, hother]
  · by_cases hnumber : number = 0
    · simp [take, hnumber]
    · have hne : number - 1 ≠ other - 1 := by omega
      simp [take, group, hother, hnumber, hne]

end PortablePdb.Grouping
