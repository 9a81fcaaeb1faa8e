import Deed.Stdlib.Lists

/-!
# The shipped map

The red-black tree of the module `std/map`.  A record pattern does not test its fields, so the
four rotations are nested matches on the colours of the nodes, spread over `balance` and
`balanceRight`.
-/

namespace Deed.Stdlib

/-- The colour of a node. -/
inductive Map.Color
  | red
  | black
  deriving DecidableEq, Repr

/-- A pair of a key and a value, as `entries` lists them. -/
structure Map.Entry (K V : Type*) where
  key : K
  value : V
  deriving DecidableEq, Repr

/-- A red-black tree. -/
inductive Map (K V : Type*)
  | empty
  | node (color : Map.Color) (key : K) (value : V) (left right : Map K V)
  deriving DecidableEq, Repr

namespace Map

open Color

variable {K V : Type*}

/-- The colour of the root, where an empty tree counts as black. -/
def nodeColor : Map K V → Color
  | empty => black
  | node color _ _ _ _ => color

/-- The same tree with a black root. -/
def makeBlack : Map K V → Map K V
  | empty => empty
  | node _ k v l r => node black k v l r

/-- A black node, rebalanced where its right child and a child of that are red. -/
def balanceRight (left : Map K V) (key : K) (value : V) (right : Map K V) : Map K V :=
  match nodeColor right with
  | black => node black key value left right
  | red =>
      match right with
      | empty => node black key value left right
      | node _ rk rv rl rr =>
          match nodeColor rl with
          | red =>
              match rl with
              | empty => node black key value left right
              | node _ rlk rlv rll rlr =>
                  node red rlk rlv (node black key value left rll) (node black rk rv rlr rr)
          | black =>
              match nodeColor rr with
              | red =>
                  match rr with
                  | empty => node black key value left right
                  | node _ rrk rrv rrl rrr =>
                      node red rk rv (node black key value left rl)
                        (node black rrk rrv rrl rrr)
              | black => node black key value left right

/-- A node, rebalanced where it is black and has a red child with a red child. -/
def balance (color : Color) (left : Map K V) (key : K) (value : V) (right : Map K V) :
    Map K V :=
  match color with
  | red => node red key value left right
  | black =>
      match nodeColor left with
      | red =>
          match left with
          | empty => balanceRight left key value right
          | node _ lk lv ll lr =>
              match nodeColor ll with
              | red =>
                  match ll with
                  | empty => balanceRight left key value right
                  | node _ llk llv lla llb =>
                      node red lk lv (node black llk llv lla llb)
                        (node black key value lr right)
              | black =>
                  match nodeColor lr with
                  | red =>
                      match lr with
                      | empty => balanceRight left key value right
                      | node _ lrk lrv lrl lrr =>
                          node red lrk lrv (node black lk lv ll lrl)
                            (node black key value lrr right)
                  | black => balanceRight left key value right
      | black => balanceRight left key value right

/-- An insertion that may leave the root red. -/
def insertNode (map : Map K V) (key : K) (value : V) (cmp : K → K → Int64) : Map K V :=
  match map with
  | empty => node red key value empty empty
  | node c k v l r =>
      let order := cmp key k
      if order < 0 then balance c (insertNode l key value cmp) k v r
      else if 0 < order then balance c l k v (insertNode r key value cmp)
      else node c k value l r

/-- The map with one more entry, which replaces the value of a key that is there. -/
def insert (map : Map K V) (key : K) (value : V) (cmp : K → K → Int64) : Map K V :=
  makeBlack (insertNode map key value cmp)

/-- What is stored under a key. -/
def get (map : Map K V) (key : K) (cmp : K → K → Int64) : Except String V :=
  match map with
  | empty => .error "no such key"
  | node _ k v l r =>
      let order := cmp key k
      if order < 0 then get l key cmp
      else if 0 < order then get r key cmp
      else .ok v

/-- The number of entries, counted in an `Int`. -/
def size : Map K V → Option Int64
  | empty => some 0
  | node _ _ _ l r => do
      let below ← size l
      let counted ← plus 1 below
      plus counted (← size r)

/-- Every entry, in the order of the comparator. -/
def entries : Map K V → List (Entry K V)
  | empty => []
  | node _ k v l r => concat (concat (entries l) [⟨k, v⟩]) (entries r)

/-- A comparator for integers. -/
def cmpInt (a b : Int64) : Int64 := if a < b then -1 else if a = b then 0 else 1

/-- A comparator for strings. -/
def cmpString (a b : String) : Int64 := if a < b then -1 else if a = b then 0 else 1

end Map

end Deed.Stdlib
