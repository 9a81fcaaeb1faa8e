import Deed.Library.Compared
import Deed.Stdlib.Map

/-!
# The shipped map is a balanced search tree

The rotations keep the entries in their order and end every pair of red nodes that an insertion
makes, so a map that only `insert` built is balanced and its entries are what putting each
entry in among those in order gives.
-/

namespace Deed.Stdlib.Map

open Color
open Deed.Library.Compared (put seek standing putAll Ascending)

variable {K V : Type*}

/-! ## Colours -/

/-- A red root has no red child. -/
def RootCalm : Map K V → Prop
  | empty => True
  | node color _ _ left right =>
      color = red → nodeColor left = black ∧ nodeColor right = black

/-- No red node has a red child. -/
def NoRedRed : Map K V → Prop
  | empty => True
  | node color _ _ left right =>
      (color = red → nodeColor left = black ∧ nodeColor right = black) ∧
        NoRedRed left ∧ NoRedRed right

/-- No red node below the root has a red child. -/
def BelowCalm : Map K V → Prop
  | empty => True
  | node _ _ _ left right => NoRedRed left ∧ NoRedRed right

/-- The colours of the nodes on each path from the root to an empty tree. -/
def paths : Map K V → List (List Color)
  | empty => [[]]
  | node color _ _ left right => (paths left ++ paths right).map (color :: ·)

/-- Every path has so many black nodes. -/
def Level (map : Map K V) (height : Nat) : Prop :=
  ∀ path ∈ paths map, path.count black = height

variable {map left right result : Map K V} {color : Color} {key : K} {value : V} {height : Nat}

@[simp]
theorem nodeColor_node : nodeColor (node color key value left right) = color := rfl

theorem noRedRed_iff : NoRedRed map ↔ RootCalm map ∧ BelowCalm map := by
  cases map with
  | empty => exact ⟨fun _ => ⟨trivial, trivial⟩, fun _ => trivial⟩
  | node color key value left right => exact Iff.rfl

theorem rootCalm_of_black (dark : nodeColor map = black) : RootCalm map := by
  cases map with
  | empty => trivial
  | node color key value left right =>
      intro bright
      rw [nodeColor, bright] at dark
      cases dark

theorem nodeColor_makeBlack : nodeColor (makeBlack map) = black := by
  cases map <;> rfl

theorem makeBlack_noRedRed (below : BelowCalm map) : NoRedRed (makeBlack map) := by
  rw [noRedRed_iff]
  refine ⟨rootCalm_of_black nodeColor_makeBlack, ?_⟩
  cases map with
  | empty => trivial
  | node color key value left right => exact below

theorem level_empty : Level (empty : Map K V) height ↔ height = 0 := by
  simp [Level, paths, eq_comm]

theorem level_black :
    Level (node black key value left right) (height + 1) ↔
      Level left height ∧ Level right height := by
  simp only [Level, paths, List.forall_mem_map, List.forall_mem_append, List.count_cons_self,
    Nat.add_right_cancel_iff]

theorem level_red :
    Level (node red key value left right) height ↔ Level left height ∧ Level right height := by
  simp only [Level, paths, List.forall_mem_map, List.forall_mem_append,
    List.count_cons_of_ne (show red ≠ black by decide)]

/-- There is always a path. -/
theorem paths_ne_nil (map : Map K V) : paths map ≠ [] := by
  induction map with
  | empty => exact List.cons_ne_nil _ _
  | node color key value left right ihLeft ihRight =>
      intro none
      rw [paths, List.map_eq_nil_iff, List.append_eq_nil_iff] at none
      exact ihLeft none.1

/-- What a level tells of a black node's children. -/
theorem level_black_cases (level : Level (node black key value left right) height) :
    ∃ below, height = below + 1 ∧ Level left below ∧ Level right below := by
  cases height with
  | zero =>
      obtain ⟨path, mem⟩ := List.exists_mem_of_ne_nil _ (paths_ne_nil left)
      have none := level (black :: path)
        (List.mem_map_of_mem (List.mem_append_left _ mem))
      rw [List.count_cons_self] at none
      cases none
  | succ below => exact ⟨below, rfl, level_black.mp level⟩

theorem makeBlack_level (level : Level map height) : ∃ height, Level (makeBlack map) height := by
  cases map with
  | empty => exact ⟨height, level⟩
  | node color key value left right =>
      cases color with
      | red => exact ⟨height + 1, level_black.mpr (level_red.mp level)⟩
      | black => exact ⟨height, level⟩

/-! ## Rotations -/

/-- What `balance` makes of a black node: a red child with a red child goes to the top, and
where there is none the node stays. -/
inductive Rotated : Map K V → K → V → Map K V → Map K V → Prop
  | leftLeft {a b c d : Map K V} {x y z : K} {u v w : V} :
      Rotated (node red y v (node red x u a b) c) z w d
        (node red y v (node black x u a b) (node black z w c d))
  | leftRight {a b c d : Map K V} {x y z : K} {u v w : V} :
      Rotated (node red x u a (node red y v b c)) z w d
        (node red y v (node black x u a b) (node black z w c d))
  | rightLeft {a b c d : Map K V} {x y z : K} {u v w : V} :
      Rotated a x u (node red z w (node red y v b c) d)
        (node red y v (node black x u a b) (node black z w c d))
  | rightRight {a b c d : Map K V} {x y z : K} {u v w : V} :
      Rotated a x u (node red y v b (node red z w c d))
        (node red y v (node black x u a b) (node black z w c d))
  | kept {left right : Map K V} {key : K} {value : V} (calm : RootCalm left)
      (calm' : RootCalm right) : Rotated left key value right (node black key value left right)

theorem balanceRight_rotated (calm : RootCalm left) :
    Rotated left key value right (balanceRight left key value right) := by
  cases right with
  | empty => exact .kept calm trivial
  | node color rk rv rl rr =>
      cases color with
      | black => exact .kept calm (rootCalm_of_black rfl)
      | red =>
          cases left' : nodeColor rl with
          | red =>
              cases rl with
              | empty => cases left'
              | node color rlk rlv rll rlr =>
                  cases left'
                  exact .rightLeft
          | black =>
              cases right' : nodeColor rr with
              | red =>
                  cases rr with
                  | empty => cases right'
                  | node color rrk rrv rrl rrr =>
                      cases right'
                      rw [balanceRight.eq_def]
                      simp only [nodeColor_node, left']
                      exact .rightRight
              | black =>
                  rw [balanceRight.eq_def]
                  simp only [nodeColor_node, left', right']
                  exact .kept calm fun _ => ⟨left', right'⟩

theorem balance_rotated :
    Rotated left key value right (balance black left key value right) := by
  cases left with
  | empty => exact balanceRight_rotated trivial
  | node color lk lv ll lr =>
      cases color with
      | black => exact balanceRight_rotated (rootCalm_of_black rfl)
      | red =>
          cases left' : nodeColor ll with
          | red =>
              cases ll with
              | empty => cases left'
              | node color llk llv lla llb =>
                  cases left'
                  exact .leftLeft
          | black =>
              cases right' : nodeColor lr with
              | red =>
                  cases lr with
                  | empty => cases right'
                  | node color lrk lrv lrl lrr =>
                      cases right'
                      rw [balance.eq_def]
                      simp only [nodeColor_node, left']
                      exact .leftRight
              | black =>
                  rw [balance.eq_def]
                  simp only [nodeColor_node, left', right']
                  exact balanceRight_rotated fun _ => ⟨left', right'⟩

namespace Rotated

/-- A rotation ends the one pair of red nodes there can be. -/
theorem noRedRed (rotated : Rotated left key value right result)
    (calm : NoRedRed left ∧ BelowCalm right ∨ BelowCalm left ∧ NoRedRed right) :
    NoRedRed result := by
  have below : BelowCalm left ∧ BelowCalm right := by
    simp only [noRedRed_iff] at calm
    rcases calm with ⟨⟨-, left⟩, right⟩ | ⟨left, -, right⟩ <;> exact ⟨left, right⟩
  have dark {a b : Map K V} {x : K} {u : V} (left : NoRedRed a) (right : NoRedRed b) :
      NoRedRed (node black x u a b) :=
    noRedRed_iff.mpr ⟨rootCalm_of_black rfl, left, right⟩
  cases rotated with
  | leftLeft =>
      obtain ⟨⟨⟨-, a, b⟩, c⟩, -⟩ := below
      have d : NoRedRed right := by
        rcases calm with ⟨left, -⟩ | ⟨-, right⟩
        · cases (left.1 rfl).1
        · exact right
      exact ⟨fun _ => ⟨rfl, rfl⟩, dark a b, dark c d⟩
  | leftRight =>
      obtain ⟨⟨a, -, b, c⟩, -⟩ := below
      have d : NoRedRed right := by
        rcases calm with ⟨left, -⟩ | ⟨-, right⟩
        · cases (left.1 rfl).2
        · exact right
      exact ⟨fun _ => ⟨rfl, rfl⟩, dark a b, dark c d⟩
  | rightLeft =>
      obtain ⟨-, ⟨-, b, c⟩, d⟩ := below
      have a : NoRedRed left := by
        rcases calm with ⟨left, -⟩ | ⟨-, right⟩
        · exact left
        · cases (right.1 rfl).1
      exact ⟨fun _ => ⟨rfl, rfl⟩, dark a b, dark c d⟩
  | rightRight =>
      obtain ⟨-, b, -, c, d⟩ := below
      have a : NoRedRed left := by
        rcases calm with ⟨left, -⟩ | ⟨-, right⟩
        · exact left
        · cases (right.1 rfl).2
      exact ⟨fun _ => ⟨rfl, rfl⟩, dark a b, dark c d⟩
  | kept rooted rooted' =>
      exact dark (noRedRed_iff.mpr ⟨rooted, below.1⟩) (noRedRed_iff.mpr ⟨rooted', below.2⟩)

theorem level (rotated : Rotated left key value right result) (level : Level left height)
    (level' : Level right height) : Level result (height + 1) := by
  cases rotated with
  | leftLeft =>
      simp only [level_red, level_black] at level level' ⊢
      exact ⟨level.1, level.2, level'⟩
  | leftRight =>
      simp only [level_red, level_black] at level level' ⊢
      exact ⟨⟨level.1, level.2.1⟩, level.2.2, level'⟩
  | rightLeft =>
      simp only [level_red, level_black] at level level' ⊢
      exact ⟨⟨level, level'.1.1⟩, level'.1.2, level'.2⟩
  | rightRight =>
      simp only [level_red, level_black] at level level' ⊢
      exact ⟨⟨level, level'.1⟩, level'.2⟩
  | kept => exact level_black.mpr ⟨level, level'⟩

theorem entries (rotated : Rotated left key value right result) :
    entries result = entries left ++ ⟨key, value⟩ :: entries right := by
  cases rotated <;> simp [Map.entries, concat_eq]

end Rotated

/-! ## One insertion -/

section Insertion

variable {cmp : K → K → Int64} {inserted : K} {stored : V}

/-- An insertion leaves at most a red root with a red child, and that only where the root was
red before. -/
theorem insertNode_calm (calm : NoRedRed map) :
    BelowCalm (insertNode map inserted stored cmp) ∧
      (nodeColor map = black → NoRedRed (insertNode map inserted stored cmp)) := by
  induction map with
  | empty => exact ⟨⟨trivial, trivial⟩, fun _ => ⟨fun _ => ⟨rfl, rfl⟩, trivial, trivial⟩⟩
  | node color key value left right ihLeft ihRight =>
      obtain ⟨root, calmLeft, calmRight⟩ := calm
      have below := ihLeft calmLeft
      have above := ihRight calmRight
      rw [insertNode]
      cases color with
      | red =>
          have dark := root rfl
          refine ⟨?_, fun black => by cases black⟩
          split_ifs
          · exact ⟨below.2 dark.1, calmRight⟩
          · exact ⟨calmLeft, above.2 dark.2⟩
          · exact ⟨calmLeft, calmRight⟩
      | black =>
          have calm : NoRedRed (if cmp inserted key < 0 then
              balance black (insertNode left inserted stored cmp) key value right
            else if 0 < cmp inserted key then
              balance black left key value (insertNode right inserted stored cmp)
            else node black key stored left right) := by
            split_ifs
            · exact balance_rotated.noRedRed (.inr ⟨below.1, calmRight⟩)
            · exact balance_rotated.noRedRed (.inl ⟨calmLeft, above.1⟩)
            · exact ⟨root, calmLeft, calmRight⟩
          exact ⟨(noRedRed_iff.mp calm).2, fun _ => calm⟩

theorem insertNode_level (level : Level map height) :
    Level (insertNode map inserted stored cmp) height := by
  induction map generalizing height with
  | empty => exact level_red.mpr ⟨level, level⟩
  | node color key value left right ihLeft ihRight =>
      rw [insertNode]
      cases color with
      | red =>
          have ⟨levelLeft, levelRight⟩ := level_red.mp level
          split_ifs
          · exact level_red.mpr ⟨ihLeft levelLeft, levelRight⟩
          · exact level_red.mpr ⟨levelLeft, ihRight levelRight⟩
          · exact level_red.mpr ⟨levelLeft, levelRight⟩
      | black =>
          obtain ⟨below, rfl, levelLeft, levelRight⟩ := level_black_cases level
          split_ifs
          · exact balance_rotated.level (ihLeft levelLeft) levelRight
          · exact balance_rotated.level levelLeft (ihRight levelRight)
          · exact level_black.mpr ⟨levelLeft, levelRight⟩

theorem entries_node :
    entries (node color key value left right) =
      entries left ++ ⟨key, value⟩ :: entries right := by
  rw [entries, concat_eq, concat_eq, List.append_assoc]
  rfl

theorem entries_balance :
    entries (balance color left key value right) =
      entries left ++ ⟨key, value⟩ :: entries right := by
  cases color with
  | red => exact entries_node
  | black => exact balance_rotated.entries

theorem entries_makeBlack : entries (makeBlack map) = entries map := by
  cases map <;> rfl

end Insertion

/-! ## The comparator -/

/-- A comparator in the three-way convention whose `≤ 0` is a total preorder. -/
structure ThreeWay (cmp : K → K → Int64) : Prop where
  reversed : ∀ a b, cmp a b < 0 ↔ 0 < cmp b a
  transitive : ∀ a b c, cmp a b ≤ 0 → cmp b c ≤ 0 → cmp a c ≤ 0

/-- The order of two keys that the code reads from the comparator's answer. -/
def ordering (cmp : K → K → Int64) (a b : K) : Ordering :=
  if cmp a b < 0 then .lt else if 0 < cmp a b then .gt else .eq

section Compared

variable {cmp : K → K → Int64} {a b c : K}

theorem ordering_lt : ordering cmp a b = .lt ↔ cmp a b < 0 := by
  unfold ordering
  split_ifs <;> simp_all

theorem ordering_eq : ordering cmp a b = .eq ↔ cmp a b = 0 := by
  unfold ordering
  split_ifs with less more
  · simp [Int64.ne_of_lt less]
  · simp [(Int64.ne_of_lt more).symm]
  · simp [Int64.le_antisymm (Int64.not_lt.mp more) (Int64.not_lt.mp less)]

theorem ordering_gt : ordering cmp a b = .gt ↔ 0 < cmp a b := by
  unfold ordering
  split_ifs with less more
  · simp [Int64.lt_asymm less]
  · simp [more]
  · simp [more]

theorem ordering_isLE : (ordering cmp a b).isLE ↔ cmp a b ≤ 0 := by
  unfold ordering
  split_ifs with less more
  · simp [Int64.le_of_lt less]
  · simp [more]
  · simp [Int64.not_lt.mp more]

theorem ThreeWay.transCmp (ordered : ThreeWay cmp) : Std.TransCmp (ordering cmp) where
  eq_swap := by
    intro a b
    cases order : ordering cmp a b with
    | lt => rw [ordering_gt.mpr ((ordered.reversed a b).mp (ordering_lt.mp order))]; rfl
    | gt => rw [ordering_lt.mpr ((ordered.reversed b a).mpr (ordering_gt.mp order))]; rfl
    | eq =>
        have zero := ordering_eq.mp order
        have less := mt (ordered.reversed b a).mp (zero ▸ Int64.lt_irrefl)
        have more := mt (ordered.reversed a b).mpr (zero ▸ Int64.lt_irrefl)
        rw [ordering, if_neg less, if_neg more]
        rfl
  isLE_trans := by
    intro a b c first second
    rw [ordering_isLE] at first second ⊢
    exact ordered.transitive a b c first second

/-- A comparator by the places of the keys in a linear order, as the two shipped ones are. -/
theorem threeWay_of_linear {L : Type*} [LinearOrder L] (rank : K → L)
    (answers : ∀ a b, cmp a b =
      if rank a < rank b then -1 else if rank a = rank b then 0 else 1) : ThreeWay cmp := by
  have less (a b : K) : cmp a b < 0 ↔ rank a < rank b := by
    rw [answers]
    split_ifs with before same
    · exact iff_of_true (by decide) before
    · exact iff_of_false (by decide) before
    · exact iff_of_false (by decide) before
  have more (a b : K) : 0 < cmp a b ↔ rank b < rank a := by
    rw [answers]
    split_ifs with before same
    · exact iff_of_false (by decide) before.not_gt
    · exact iff_of_false (by decide) same.not_gt
    · exact iff_of_true (by decide) (lt_of_le_of_ne (not_lt.mp before) (Ne.symm same))
  have atMost (a b : K) : cmp a b ≤ 0 ↔ rank a ≤ rank b := by
    rw [← Int64.not_lt, more, not_lt]
  constructor
  · intro a b
    rw [less, more]
  · intro a b c
    rw [atMost, atMost, atMost]
    exact le_trans

theorem cmpInt_threeWay : ThreeWay cmpInt := by
  refine threeWay_of_linear Int64.toInt ?_
  intro a b
  simp only [cmpInt, Int64.lt_iff_toInt_lt, Int64.toInt_inj]

end Compared

/-! ## The entries of a map -/

section Entries

variable {cmp : K → K → Int64} {inserted : K} {stored : V}

/-- A key with its value. -/
def Entry.pair (entry : Entry K V) : K × V := (entry.key, entry.value)

/-- The keys and values of a map, in its order. -/
def pairs (map : Map K V) : List (K × V) := (entries map).map Entry.pair

theorem pairs_append {key : K} {value : V} (from_ : List (Entry K V)) (later : List (Entry K V)) :
    (from_ ++ ⟨key, value⟩ :: later).map Entry.pair =
      from_.map Entry.pair ++ (key, value) :: later.map Entry.pair := by
  rw [List.map_append, List.map_cons]
  rfl

theorem pairs_node :
    pairs (node color key value left right) = pairs left ++ (key, value) :: pairs right := by
  rw [pairs, entries_node, pairs_append]
  rfl

/-- What the order of a node's entries tells of its children. -/
theorem ascending_node
    (ascending : Ascending (ordering cmp) (pairs (node color key value left right))) :
    Ascending (ordering cmp) (pairs left) ∧ Ascending (ordering cmp) (pairs right) ∧
      (∀ entry ∈ pairs left, ordering cmp entry.1 key = .lt) ∧
      ∀ entry ∈ pairs right, ordering cmp key entry.1 = .lt := by
  rw [pairs_node, Ascending, List.pairwise_append, List.pairwise_cons] at ascending
  obtain ⟨ascendingLeft, ⟨behind, ascendingRight⟩, across⟩ := ascending
  refine ⟨ascendingLeft, ascendingRight, ?_, behind⟩
  intro entry mem
  exact across entry mem (key, value) (List.mem_cons_self ..)

/-- An insertion puts its entry in among the others. -/
theorem pairs_insertNode (ordered : ThreeWay cmp) (ascending : Ascending (ordering cmp) (pairs map)) :
    pairs (insertNode map inserted stored cmp) =
      put (ordering cmp) inserted stored (pairs map) := by
  have := ordered.transCmp
  induction map with
  | empty => rfl
  | node color key value left right ihLeft ihRight =>
      obtain ⟨ascendingLeft, ascendingRight, before, behind⟩ := ascending_node ascending
      rw [insertNode, pairs_node]
      by_cases less : cmp inserted key < 0
      · rw [if_pos less, pairs, entries_balance, pairs_append,
          Library.Compared.put_below (ordering_lt.mpr less), ← ihLeft ascendingLeft]
        rfl
      · by_cases more : 0 < cmp inserted key
        · rw [if_neg less, if_pos more, pairs, entries_balance, pairs_append,
            Library.Compared.put_above before (ordering_gt.mpr more), ← ihRight ascendingRight]
          rfl
        · have zero : cmp inserted key = 0 :=
            Int64.le_antisymm (Int64.not_lt.mp more) (Int64.not_lt.mp less)
          rw [if_neg less, if_neg more, pairs_node,
            Library.Compared.put_among before (ordering_eq.mpr zero)]

theorem pairs_insert (ordered : ThreeWay cmp) (ascending : Ascending (ordering cmp) (pairs map)) :
    pairs (insert map inserted stored cmp) = put (ordering cmp) inserted stored (pairs map) := by
  rw [insert, pairs, entries_makeBlack]
  exact pairs_insertNode ordered ascending

/-- A lookup finds what is in the entries. -/
theorem get_eq (ordered : ThreeWay cmp) (ascending : Ascending (ordering cmp) (pairs map)) :
    get map key cmp =
      (seek (ordering cmp) key (pairs map)).elim (.error "no such key") fun entry =>
        .ok entry.2 := by
  have := ordered.transCmp
  induction map with
  | empty => rfl
  | node color there value left right ihLeft ihRight =>
      obtain ⟨ascendingLeft, ascendingRight, before, behind⟩ := ascending_node ascending
      rw [get, pairs_node]
      by_cases less : cmp key there < 0
      · rw [if_pos less, Library.Compared.seek_below behind (ordering_lt.mpr less),
          ihLeft ascendingLeft]
      · by_cases more : 0 < cmp key there
        · rw [if_neg less, if_pos more,
            Library.Compared.seek_above before (ordering_gt.mpr more), ihRight ascendingRight]
        · have zero : cmp key there = 0 :=
            Int64.le_antisymm (Int64.not_lt.mp more) (Int64.not_lt.mp less)
          rw [if_neg less, if_neg more,
            Library.Compared.seek_among before (ordering_eq.mpr zero)]
          rfl

theorem size_eq : size map = checked (entries map).length := by
  induction map with
  | empty => exact (checked_eq_some.mpr rfl).symm
  | node color key value left right ihLeft ihRight =>
      have whole : (entries (node color key value left right)).length =
          1 + (entries left).length + (entries right).length := by
        rw [entries_node, List.length_append, List.length_cons]
        omega
      have one : checked 1 = some 1 := checked_eq_some.mpr rfl
      have first : (checked (entries left).length).bind (plus 1) =
          checked (1 + (entries left).length) := by
        have sum := @checked_plus 1 (entries left).length (by decide) (Nat.cast_nonneg _)
        rwa [one, Option.bind_some] at sum
      have sum := @checked_plus (1 + (entries left).length) (entries right).length (by omega)
        (Nat.cast_nonneg _)
      rw [size, ihLeft, ihRight, whole, Nat.cast_add, Nat.cast_add, Nat.cast_one, ← sum, ← first]
      exact (Option.bind_assoc ..).symm

end Entries

/-! ## Whole runs -/

section Runs

variable (cmp : K → K → Int64) (inserts : List (Entry K V))

/-- The map that some insertions build, the first one first. -/
def built : Map K V :=
  inserts.foldl (fun map entry => insert map entry.key entry.value cmp) empty

/-- The key of the first insertion of an equivalent key. -/
def firstKey (key : K) : Option K :=
  (inserts.find? fun entry => cmp key entry.key = 0).map Entry.key

/-- The value of the last insertion of an equivalent key. -/
def lastValue (key : K) : Option V :=
  (inserts.reverse.find? fun entry => cmp key entry.key = 0).map Entry.value

/-- Two keys are the same to the comparator. -/
def ThreeWay.setoid {cmp : K → K → Int64} (ordered : ThreeWay cmp) : Setoid K where
  r a b := ordering cmp a b = .eq
  iseqv :=
    have := ordered.transCmp
    { refl := fun _ => Std.ReflCmp.compare_self
      symm := Std.OrientedCmp.eq_symm
      trans := Std.TransCmp.eq_trans }

/-- The distinct keys of some insertions. -/
def ThreeWay.distinct {cmp : K → K → Int64} (ordered : ThreeWay cmp) (inserts : List (Entry K V)) :
    Set (Quotient ordered.setoid) :=
  {key | ∃ entry ∈ inserts, Quotient.mk ordered.setoid entry.key = key}

variable {cmp inserts} {height : Nat}

theorem seek_pairs (key : K) : seek (ordering cmp) key (inserts.map Entry.pair) =
    (inserts.find? fun entry => cmp key entry.key = 0).map Entry.pair := by
  rw [seek, List.find?_map]
  congr 2
  funext entry
  exact decide_eq_decide.mpr ordering_eq

theorem standing_eq (key : K) : standing (ordering cmp) (inserts.map Entry.pair) key =
    (firstKey cmp inserts key).bind fun first =>
      (lastValue cmp inserts key).map fun last => (first, last) := by
  rw [standing, ← List.map_reverse, seek_pairs, seek_pairs, firstKey, lastValue]
  cases inserts.find? _ with
  | none => rfl
  | some first => cases inserts.reverse.find? _ <;> rfl

theorem built_append (entry : Entry K V) :
    built cmp (inserts ++ [entry]) = insert (built cmp inserts) entry.key entry.value cmp := by
  rw [built, List.foldl_append]
  rfl

/-- What a sequence of insertions builds is balanced. -/
theorem built_balanced : NoRedRed (built cmp inserts) ∧ nodeColor (built cmp inserts) = black ∧
    ∃ height, Level (built cmp inserts) height := by
  induction inserts using List.reverseRecOn with
  | nil => exact ⟨trivial, rfl, 0, level_empty.mpr rfl⟩
  | append_singleton inserts last ih =>
      obtain ⟨calm, -, height, level⟩ := ih
      rw [built_append]
      exact ⟨makeBlack_noRedRed (insertNode_calm calm).1, nodeColor_makeBlack,
        makeBlack_level (insertNode_level level)⟩

/-- Its entries are those put in, in order. -/
theorem pairs_built (ordered : ThreeWay cmp) :
    pairs (built cmp inserts) = putAll (ordering cmp) (inserts.map Entry.pair) := by
  have := ordered.transCmp
  induction inserts using List.reverseRecOn with
  | nil => rfl
  | append_singleton inserts last ih =>
      rw [built_append, List.map_append, List.map_singleton, Library.Compared.putAll_append, ← ih]
      refine pairs_insert ordered ?_
      rw [ih]
      exact Library.Compared.putAll_ascending

/-- Entries in order whose keys are all distinct to the comparator. -/
theorem ascending_iff {entries : List (Entry K V)} :
    Ascending (ordering cmp) (entries.map Entry.pair) ↔
      entries.Pairwise fun entry later => cmp entry.key later.key < 0 := by
  rw [Ascending, List.pairwise_map]
  simp only [Entry.pair, ordering_lt]

/-- Each key put in stands, and nothing else does. -/
theorem mem_entries_built (ordered : ThreeWay cmp) (entry : Entry K V) :
    entry ∈ entries (built cmp inserts) ↔
      firstKey cmp inserts entry.key = some entry.key ∧
        lastValue cmp inserts entry.key = some entry.value := by
  have := ordered.transCmp
  have injective : Function.Injective (Entry.pair : Entry K V → K × V) := by
    rintro ⟨key, value⟩ ⟨key', value'⟩ same
    cases same
    rfl
  rw [← List.mem_map_of_injective injective]
  show entry.pair ∈ pairs (built cmp inserts) ↔ _
  rw [pairs_built ordered, Library.Compared.mem_putAll, standing_eq]
  rw [show entry.pair.1 = entry.key from rfl]
  cases firstKey cmp inserts entry.key <;> cases lastValue cmp inserts entry.key <;>
    simp [Entry.pair]

/-- A key that was inserted has its entry. -/
theorem exists_entry_built (ordered : ThreeWay cmp) {entry : Entry K V} (mem : entry ∈ inserts) :
    ∃ listed ∈ entries (built cmp inserts), ordering cmp listed.key entry.key = .eq := by
  have := ordered.transCmp
  have same : cmp entry.key entry.key = 0 := ordering_eq.mp Std.ReflCmp.compare_self
  have found {entries : List (Entry K V)} (mem : entry ∈ entries) :
      ∃ first, entries.find? (fun other => cmp entry.key other.key = 0) = some first := by
    rw [← Option.isSome_iff_exists, List.find?_isSome]
    exact ⟨entry, mem, by simpa using same⟩
  obtain ⟨first, first_eq⟩ := found mem
  obtain ⟨last, last_eq⟩ := found (List.mem_reverse.mpr mem)
  have stands : seek (ordering cmp) entry.key (pairs (built cmp inserts)) =
      some (first.key, last.value) := by
    rw [pairs_built ordered, Library.Compared.seek_putAll, standing_eq, firstKey, lastValue,
      first_eq, last_eq]
    rfl
  obtain ⟨listed, listed_mem, pair⟩ := List.mem_map.mp (List.mem_of_find?_eq_some stands)
  have equivalent := List.find?_some stands
  rw [decide_eq_true_eq, ← pair] at equivalent
  exact ⟨listed, listed_mem, Std.OrientedCmp.eq_symm equivalent⟩

/-- A map that insertions built has one entry for each distinct key. -/
theorem distinct_ncard (ordered : ThreeWay cmp) :
    (ordered.distinct inserts).ncard = (entries (built cmp inserts)).length := by
  classical
  have := ordered.transCmp
  let classes := (entries (built cmp inserts)).map fun entry =>
    Quotient.mk ordered.setoid entry.key
  have whole : ordered.distinct inserts = {key | key ∈ classes} := by
    ext key
    constructor
    · rintro ⟨entry, mem, rfl⟩
      obtain ⟨listed, listed_mem, equivalent⟩ := exists_entry_built ordered mem
      exact List.mem_map.mpr ⟨listed, listed_mem, Quotient.sound equivalent⟩
    · intro mem
      obtain ⟨listed, listed_mem, rfl⟩ := List.mem_map.mp mem
      have first := ((mem_entries_built ordered listed).mp listed_mem).1
      obtain ⟨entry, found, same⟩ := Option.map_eq_some_iff.mp first
      exact ⟨entry, List.mem_of_find?_eq_some found, by rw [same]⟩
  have nodup : classes.Nodup := by
    have ascending : Ascending (ordering cmp) (pairs (built cmp inserts)) := by
      rw [pairs_built ordered]
      exact Library.Compared.putAll_ascending
    rw [List.Nodup, List.pairwise_map]
    refine (ascending_iff.mp ascending).imp ?_
    intro entry later less same
    have equal : ordering cmp entry.key later.key = .eq := Quotient.exact same
    rw [ordering_lt.mpr less] at equal
    cases equal
  rw [whole, ← List.coe_toFinset, Set.ncard_coe_finset, List.toFinset_card_of_nodup nodup,
    List.length_map]

/-- The shipped map is a balanced search tree that answers what was inserted: after any
insertions the root is black, no red node has a red child, every path has as many black nodes,
the keys increase, and lookups, the count and the listing answer for each distinct key what was
inserted last. -/
theorem map_balanced_search (ordered : ThreeWay cmp) (inserts : List (Entry K V)) :
    nodeColor (built cmp inserts) = black ∧ NoRedRed (built cmp inserts) ∧
      (∃ height, ∀ path ∈ paths (built cmp inserts), path.count black = height) ∧
      (∀ key, get (built cmp inserts) key cmp =
        (lastValue cmp inserts key).elim (.error "no such key") .ok) ∧
      size (built cmp inserts) = checked (ordered.distinct inserts).ncard ∧
      (entries (built cmp inserts)).Pairwise (fun entry later => cmp entry.key later.key < 0) ∧
      ∀ entry, entry ∈ entries (built cmp inserts) ↔
        firstKey cmp inserts entry.key = some entry.key ∧
          lastValue cmp inserts entry.key = some entry.value := by
  have := ordered.transCmp
  have balanced := @built_balanced K V cmp inserts
  have ascending : Ascending (ordering cmp) (pairs (built cmp inserts)) := by
    rw [pairs_built ordered]
    exact Library.Compared.putAll_ascending
  refine ⟨balanced.2.1, balanced.1, balanced.2.2, ?_, ?_, ascending_iff.mp ascending,
    mem_entries_built ordered⟩
  · intro key
    rw [get_eq ordered ascending, pairs_built ordered, Library.Compared.seek_putAll, standing_eq,
      firstKey, lastValue]
    have both := @Library.Compared.seek_reverse_none K V (ordering cmp) key
      (inserts.map Entry.pair)
    rw [← List.map_reverse, seek_pairs, seek_pairs, Option.map_eq_none_iff,
      Option.map_eq_none_iff] at both
    cases first : inserts.find? _ with
    | none =>
        rw [both.mpr first]
        rfl
    | some entry =>
        cases last : inserts.reverse.find? _ with
        | none =>
            rw [both.mp last] at first
            cases first
        | some entry' => rfl
  · rw [size_eq, distinct_ncard]

theorem map_balanced_search_replaced :
    get (built cmpInt [⟨2, "two"⟩, ⟨1, "one"⟩, ⟨2, "TWO"⟩, ⟨3, "three"⟩]) 2 cmpInt =
      .ok "TWO" :=
  (map_balanced_search cmpInt_threeWay _).2.2.2.1 2

end Runs

end Deed.Stdlib.Map
