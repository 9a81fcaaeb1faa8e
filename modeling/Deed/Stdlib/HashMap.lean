import Deed.Stdlib.Lists

/-!
# The shipped hash map

The module `std/hashmap`.  A map is the list of its buckets, and `set` rebuilds all of them by
a walk over their indices.  What `hash` answers for a key is a parameter.
-/

namespace Deed.Stdlib

/-- A key with its value, as a bucket holds them. -/
structure Table.Entry (K V : Type*) where
  key : K
  value : V
  deriving DecidableEq, Repr

namespace HashMap

open Table (Entry)

/-- A map as the list of its buckets. -/
abbrev Buckets (K V : Type*) := List (List (Entry K V))

variable {K V : Type*} [DecidableEq K] (hash : K → Int64)

/-- How many buckets a map has. -/
def buckets : Int64 := 64

/-- A map with nothing in it. -/
def empty (key : K) (value : V) : Buckets K V :=
  repeated (repeated ⟨key, value⟩ 0) buckets

/-- How many keys are in it. -/
def size (map : Buckets K V) : Option Int64 :=
  map.foldlM (fun total slot => plus total (length slot)) 0

/-- Which bucket a key belongs in. -/
def bucketOf (key : K) : Int64 :=
  let spread := hash key % buckets
  if spread < 0 then spread + buckets else spread

/-- The entries of one bucket. -/
def bucketAt (map : Buckets K V) (index : Int64) : List (Entry K V) :=
  match elementAt map index with
  | .ok found => found
  | .error _ => []

/-- What is under a key. -/
def get (map : Buckets K V) (key : K) : Except String V :=
  (bucketAt map (bucketOf hash key)).foldl
    (fun found one => if one.key = key then .ok one.value else found) (.error "no such key")

/-- Whether anything is under a key. -/
def holds (map : Buckets K V) (key : K) : Bool :=
  match get hash map key with
  | .ok _ => true
  | .error _ => false

/-- What is under a key, or something else where there is nothing. -/
def orElse (map : Buckets K V) (key : K) (fallback : V) : V :=
  match get hash map key with
  | .ok found => found
  | .error _ => fallback

/-- One bucket with the key in it. -/
def written (bucket : List (Entry K V)) (key : K) (value : V) (had : Bool) :
    List (Entry K V) :=
  if had then
    bucket.foldl
      (fun out one => if one.key = key then push out ⟨key, value⟩ else push out one) []
  else push bucket ⟨key, value⟩

/-- The map with a key holding a value. -/
def set (map : Buckets K V) (key : K) (value : V) : Buckets K V :=
  let index := bucketOf hash key
  let had := holds hash map key
  (range buckets).foldl
    (fun out slot =>
      if slot = index then push out (written (bucketAt map slot) key value had)
      else push out (bucketAt map slot)) []

/-- A map holding one key. -/
def holding (key : K) (value : V) : Buckets K V := set hash (empty key value) key value

/-- Every entry, bucket by bucket. -/
def entries (map : Buckets K V) : List (Entry K V) :=
  map.foldl (fun out slot => slot.foldl (fun inner one => push inner one) out) []

/-- Every key. -/
def keys (map : Buckets K V) : List K :=
  (entries map).foldl (fun out one => push out one.key) []

/-- Every value, in the order of the keys. -/
def values (map : Buckets K V) : List V :=
  (entries map).foldl (fun out one => push out one.value) []

end HashMap

end Deed.Stdlib
