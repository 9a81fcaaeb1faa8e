import Deed.Effects.Cycles

/-!
# Exactly the nodes on a cycle

The algorithm returns, and what it returns are the nodes from which a path of at least one edge
leads back.  Every turn of its loop keeps what the low links mean: a node that is left open
while others are closed reaches one that was found before it.
-/

namespace Deed.Effects

open Relation

variable {T : Type} [DecidableEq T] {graph : CallGraph T}

namespace CallGraph

/-- One node calls another. -/
def Calls (graph : CallGraph T) (node next : T) : Prop := next ∈ graph.edges node

/-- A path of any length. -/
def Reach (graph : CallGraph T) : T → T → Prop := ReflTransGen graph.Calls

/-- A node lies on a cycle. -/
def Cyclic (graph : CallGraph T) (node : T) : Prop := TransGen graph.Calls node node

theorem mem_nodes_of_calls {node next : T} (calls : graph.Calls node next) :
    node ∈ graph.keys ∧ next ∈ graph.nodes := by
  unfold Calls edges at calls
  cases found : graph.entries.lookup node with
  | none =>
      rw [found] at calls
      exact absurd calls List.not_mem_nil
  | some edges =>
      rw [found, Option.getD_some] at calls
      rcases List.lookup_eq_some_iff.1 found with ⟨before, after, whole, -⟩
      have entry : (node, edges) ∈ graph.entries := by
        rw [whole]
        exact List.mem_append_right _ List.mem_cons_self
      refine ⟨List.mem_map_of_mem (f := Prod.fst) entry, ?_⟩
      apply List.mem_dedup.2
      exact List.mem_append_right _ (List.mem_flatMap.2 ⟨_, entry, calls⟩)

theorem mem_nodes_of_key {node : T} (key : node ∈ graph.keys) : node ∈ graph.nodes :=
  List.mem_dedup.2 (List.mem_append_left _ key)

end CallGraph

namespace Tarjan

variable {state : Tarjan T} {work rest : Work T} {node next x y : T} {taken : Nat}

/-! ## What the state means -/

/-- The number that a node was entered with. -/
def number (state : Tarjan T) (node : T) : Nat := (state.index node).getD 0

/-- The low link of a node. -/
def lowest (state : Tarjan T) (node : T) : Nat := (state.low node).getD 0

def Visited (state : Tarjan T) (node : T) : Prop := state.index node ≠ none

/-- A node whose component is closed. -/
def Done (state : Tarjan T) (node : T) : Prop := state.Visited node ∧ node ∉ state.stack

/-- An edge that has been taken: all those of a node that is not being worked on. -/
def Taken (graph : CallGraph T) (work : Work T) (node next : T) : Prop :=
  graph.Calls node next ∧
    ∀ taken, (node, taken) ∈ work → next ∈ (graph.edges node).take taken

/-- The nodes that are being worked on. -/
def names (work : Work T) : List T := work.map Prod.fst

/-- What every turn of the loop keeps. -/
structure Sound (graph : CallGraph T) (state : Tarjan T) (work : Work T) : Prop where
  low_ne_none : ∀ x, state.Visited x → state.low x ≠ none
  fresh : ∀ x, state.Visited x → state.number x < state.next
  onStack : ∀ x, state.onStack x = true ↔ x ∈ state.stack
  visited : ∀ x ∈ state.stack, state.Visited x
  order : state.stack.Pairwise fun x y => state.number y < state.number x
  works : (names work).Pairwise fun x y => state.number y < state.number x
  working : ∀ entry ∈ work, entry.1 ∈ state.stack ∧ entry.2 ≤ (graph.edges entry.1).length
  /-- Whatever is closed calls only what is closed. -/
  closed : ∀ x y, state.Done x → graph.Calls x y → state.Done y
  seen : ∀ x y, state.Visited x → Taken graph work x y → state.Visited y
  lowest_le : ∀ x ∈ state.stack, state.lowest x ≤ state.number x
  /-- A low link is the number of a node on the stack that can be reached. -/
  reaches : ∀ x ∈ state.stack, ∃ y ∈ state.stack,
    state.number y = state.lowest x ∧ graph.Reach x y
  /-- What is being worked on reaches all that is above it on the stack. -/
  down : ∀ z ∈ names work, ∀ x ∈ state.stack, state.number z ≤ state.number x → graph.Reach z x
  /-- What was left without being closed reaches something below it. -/
  left_ : ∀ x ∈ state.stack, x ∉ names work → state.lowest x < state.number x
  /-- An edge from above something that is being worked on is known to a low link there. -/
  crossing : ∀ z ∈ names work, ∀ x ∈ state.stack, state.number z ≤ state.number x →
    ∀ y ∈ state.stack, Taken graph work x y →
      ∃ other ∈ names work, state.number z ≤ state.number other ∧
        state.lowest other ≤ state.number y
  under : ∀ x ∈ state.stack, ∃ z ∈ names work, state.number z ≤ state.number x
  found : ∀ x, x ∈ state.found ↔ state.Done x ∧ graph.Cyclic x

theorem sound_new : Sound graph (new : Tarjan T) [] where
  low_ne_none _ visited := absurd rfl visited
  fresh _ visited := absurd rfl visited
  onStack _ := iff_of_false Bool.false_ne_true List.not_mem_nil
  visited _ member := absurd member List.not_mem_nil
  order := List.Pairwise.nil
  works := List.Pairwise.nil
  working _ member := absurd member List.not_mem_nil
  closed _ _ done := absurd rfl done.1
  seen _ _ visited := absurd rfl visited
  lowest_le _ member := absurd member List.not_mem_nil
  reaches _ member := absurd member List.not_mem_nil
  down _ member := absurd member List.not_mem_nil
  left_ _ member := absurd member List.not_mem_nil
  crossing _ member := absurd member List.not_mem_nil
  under _ member := absurd member List.not_mem_nil
  found _ := iff_of_false List.not_mem_nil fun both => both.1.1 rfl

theorem nodup_of_pairwise_lt {α : Type} {key : α → Nat} {list : List α}
    (order : list.Pairwise fun x y => key y < key x) : list.Nodup :=
  order.imp fun less same => by
    rw [same] at less
    exact Nat.lt_irrefl _ less

omit [DecidableEq T] in
/-- A node is worked on at one place. -/
theorem taken_unique (distinct : (names work).Nodup) {one other : Nat} (first : (node, one) ∈ work)
    (second : (node, other) ∈ work) : one = other :=
  congrArg Prod.snd (List.inj_on_of_nodup_map distinct first second rfl)

namespace Sound

theorem mem_stack (sound : Sound graph state work) (member : x ∈ names work) : x ∈ state.stack := by
  rcases List.mem_map.1 member with ⟨entry, among, rfl⟩
  exact (sound.working entry among).1

/-! ## Entering a node -/

theorem number_enter_self : (state.enter next).number next = state.next := by
  show (Function.update state.index next (some state.next) next).getD 0 = state.next
  rw [Function.update_self]
  rfl

theorem lowest_enter_self : (state.enter next).lowest next = state.next := by
  show (Function.update state.low next (some state.next) next).getD 0 = state.next
  rw [Function.update_self]
  rfl

theorem number_enter (other : x ≠ next) : (state.enter next).number x = state.number x := by
  show (Function.update state.index next (some state.next) x).getD 0 = state.number x
  rw [Function.update_of_ne other, number]

theorem lowest_enter (other : x ≠ next) : (state.enter next).lowest x = state.lowest x := by
  show (Function.update state.low next (some state.next) x).getD 0 = state.lowest x
  rw [Function.update_of_ne other, lowest]

theorem visited_enter : (state.enter next).Visited x ↔ x = next ∨ state.Visited x := by
  show Function.update state.index next (some state.next) x ≠ none ↔ _
  unfold Visited
  by_cases same : x = next
  · rw [same, Function.update_self]
    exact iff_of_true (Option.some_ne_none _) (.inl rfl)
  · rw [Function.update_of_ne same]
    simp [same]

/-- A node that nothing was known of, which all that is being worked on reaches. -/
theorem enter (sound : Sound graph state work) (unknown : state.index next = none)
    (reach : ∀ z ∈ names work, graph.Reach z next) :
    Sound graph (state.enter next) ((next, 0) :: work) := by
  have strange : ∀ {x}, state.Visited x → x ≠ next := by
    rintro x visited rfl
    exact visited unknown
  have apart : ∀ {x}, x ∈ state.stack → x ≠ next := fun member => strange (sound.visited _ member)
  have apart' : ∀ {z}, z ∈ names work → z ≠ next := fun member => apart (sound.mem_stack member)
  have below : ∀ {x}, x ∈ state.stack → state.number x < state.next :=
    fun member => sound.fresh _ (sound.visited _ member)
  have done : ∀ {x}, (state.enter next).Done x ↔ state.Done x := by
    intro x
    unfold Done
    rw [visited_enter]
    constructor
    · rintro ⟨rfl | visited, off⟩
      · exact absurd List.mem_cons_self off
      · exact ⟨visited, fun on => off (List.mem_cons_of_mem _ on)⟩
    · rintro ⟨visited, off⟩
      refine ⟨.inr visited, ?_⟩
      intro on
      rcases List.mem_cons.1 on with same | on
      · exact strange visited same
      · exact off on
  -- No edge of the new node has been taken, and none of the others leads to it.
  have before : ∀ {x y}, Taken graph ((next, 0) :: work) x y → x ≠ next ∧ Taken graph work x y := by
    rintro x y ⟨calls, taken⟩
    refine ⟨?_, calls, fun count member => taken count (List.mem_cons_of_mem _ member)⟩
    rintro rfl
    have none := taken 0 List.mem_cons_self
    rw [List.take_zero] at none
    exact List.not_mem_nil none
  have cases_ : ∀ {x}, x ∈ (state.enter next).stack → x = next ∨ x ∈ state.stack ∧ x ≠ next := by
    intro x member
    rcases List.mem_cons.1 member with same | member
    · exact .inl same
    · exact .inr ⟨member, apart member⟩
  constructor
  case low_ne_none =>
    intro x visited
    show Function.update state.low next (some state.next) x ≠ none
    by_cases same : x = next
    · rw [same, Function.update_self]
      exact Option.some_ne_none _
    · rw [Function.update_of_ne same]
      exact sound.low_ne_none x ((visited_enter.1 visited).resolve_left same)
  case fresh =>
    intro x visited
    rcases visited_enter.1 visited with rfl | visited
    · rw [number_enter_self]
      exact Nat.lt_succ_self _
    · rw [number_enter (strange visited)]
      exact Nat.lt_succ_of_lt (sound.fresh x visited)
  case onStack =>
    intro x
    show Function.update state.onStack next true x = true ↔ x ∈ next :: state.stack
    by_cases same : x = next
    · rw [same, Function.update_self]
      exact iff_of_true rfl List.mem_cons_self
    · rw [Function.update_of_ne same, sound.onStack, List.mem_cons]
      simp [same]
  case visited =>
    intro x member
    rcases cases_ member with rfl | ⟨member, -⟩
    · exact visited_enter.2 (.inl rfl)
    · exact visited_enter.2 (.inr (sound.visited x member))
  case order =>
    apply List.pairwise_cons.2
    constructor
    · intro x member
      rw [number_enter (apart member), number_enter_self]
      exact below member
    · apply sound.order.imp_of_mem
      intro x y mine theirs less
      rw [number_enter (apart mine), number_enter (apart theirs)]
      exact less
  case works =>
    apply List.pairwise_cons.2
    constructor
    · intro x member
      rw [number_enter (apart' member), number_enter_self]
      exact below (sound.mem_stack member)
    · apply sound.works.imp_of_mem
      intro x y mine theirs less
      rw [number_enter (apart' mine), number_enter (apart' theirs)]
      exact less
  case working =>
    intro entry member
    rcases List.mem_cons.1 member with rfl | member
    · exact ⟨List.mem_cons_self, Nat.zero_le _⟩
    · rcases sound.working entry member with ⟨on, less⟩
      exact ⟨List.mem_cons_of_mem _ on, less⟩
  case closed =>
    intro x y mine calls
    exact done.2 (sound.closed x y (done.1 mine) calls)
  case seen =>
    intro x y visited taken
    rcases before taken with ⟨other, taken⟩
    exact visited_enter.2 (.inr
      (sound.seen x y ((visited_enter.1 visited).resolve_left other) taken))
  case lowest_le =>
    intro x member
    rcases cases_ member with rfl | ⟨member, other⟩
    · rw [number_enter_self, lowest_enter_self]
    · rw [number_enter other, lowest_enter other]
      exact sound.lowest_le x member
  case reaches =>
    intro x member
    rcases cases_ member with rfl | ⟨member, other⟩
    · exact ⟨x, List.mem_cons_self, number_enter_self.trans lowest_enter_self.symm, .refl⟩
    · rcases sound.reaches x member with ⟨y, on, same, reach⟩
      refine ⟨y, List.mem_cons_of_mem _ on, ?_, reach⟩
      rw [number_enter (apart on), lowest_enter other]
      exact same
  case down =>
    intro z working x member less
    rcases List.mem_cons.1 working with rfl | among
    · rcases cases_ member with rfl | ⟨member, other⟩
      · exact .refl
      · rw [number_enter_self, number_enter other] at less
        exact absurd (below member) (Nat.not_lt_of_le less)
    · rcases cases_ member with rfl | ⟨member, other⟩
      · exact reach z among
      · rw [number_enter (apart' among), number_enter other] at less
        exact sound.down z among x member less
  case left_ =>
    intro x member idle
    rcases cases_ member with rfl | ⟨member, other⟩
    · exact absurd List.mem_cons_self idle
    · rw [number_enter other, lowest_enter other]
      exact sound.left_ x member fun working => idle (List.mem_cons_of_mem _ working)
  case crossing =>
    intro z working x member less y on taken
    rcases before taken with ⟨other, taken⟩
    have mine : x ∈ state.stack := (cases_ member).elim (fun same => absurd same other) And.left
    have theirs := strange (sound.seen x y (sound.visited x mine) taken)
    have on' : y ∈ state.stack := (cases_ on).elim (fun same => absurd same theirs) And.left
    rw [number_enter other] at less
    rcases List.mem_cons.1 working with rfl | working
    · rw [number_enter_self] at less
      exact absurd (below mine) (Nat.not_lt_of_le less)
    · rw [number_enter (apart' working)] at less ⊢
      rcases sound.crossing z working x mine less y on' taken with ⟨found, among, above, low⟩
      refine ⟨found, List.mem_cons_of_mem _ among, ?_, ?_⟩
      · rw [number_enter (apart' among)]
        exact above
      · rw [lowest_enter (apart' among), number_enter theirs]
        exact low
  case under =>
    intro x member
    rcases cases_ member with rfl | ⟨member, other⟩
    · exact ⟨x, List.mem_cons_self, le_rfl⟩
    · rcases sound.under x member with ⟨z, working, less⟩
      refine ⟨z, List.mem_cons_of_mem _ working, ?_⟩
      rw [number_enter (apart' working), number_enter other]
      exact less
  case found =>
    intro x
    rw [done]
    exact sound.found x

/-! ## Taking an edge -/

/-- A low link goes down to the number of something on the stack that can be reached. -/
theorem lowered (sound : Sound graph state work) {other : T} (on : other ∈ state.stack) (reach : graph.Reach node other) {value : Nat}
    (same : state.number other = value) (less : value ≤ state.lowest node) :
    Sound graph { state with low := Function.update state.low node (some value) } work := by
  have self : ({ state with low := Function.update state.low node (some value) } : Tarjan T).lowest
      node = value := by
    show (Function.update state.low node (some value) node).getD 0 = value
    rw [Function.update_self]
    rfl
  have others : ∀ {x}, x ≠ node →
      ({ state with low := Function.update state.low node (some value) } : Tarjan T).lowest x =
        state.lowest x := by
    intro x apart
    show (Function.update state.low node (some value) x).getD 0 = state.lowest x
    rw [Function.update_of_ne apart, lowest]
  have le : ∀ x, ({ state with low := Function.update state.low node (some value) } :
      Tarjan T).lowest x ≤ state.lowest x := by
    intro x
    by_cases apart : x = node
    · rw [apart, self]
      exact less
    · rw [others apart]
  constructor
  case low_ne_none =>
    intro x visited
    show Function.update state.low node (some value) x ≠ none
    by_cases apart : x = node
    · rw [apart, Function.update_self]
      exact Option.some_ne_none _
    · rw [Function.update_of_ne apart]
      exact sound.low_ne_none x visited
  case fresh => exact sound.fresh
  case onStack => exact sound.onStack
  case visited => exact sound.visited
  case order => exact sound.order
  case works => exact sound.works
  case working => exact sound.working
  case closed => exact sound.closed
  case seen => exact sound.seen
  case lowest_le => exact fun x member => (le x).trans (sound.lowest_le x member)
  case reaches =>
    intro x member
    by_cases apart : x = node
    · rw [apart, self]
      exact ⟨other, on, same, reach⟩
    · rw [others apart]
      exact sound.reaches x member
  case down => exact sound.down
  case left_ =>
    intro x member idle
    exact (le x).trans_lt (sound.left_ x member idle)
  case crossing =>
    intro z mine x member above y theirs taken
    rcases sound.crossing z mine x member above y theirs taken with ⟨found, among, more, low⟩
    exact ⟨found, among, more, (le found).trans low⟩
  case under => exact sound.under
  case found => exact sound.found

variable {front : Work T}

omit [DecidableEq T] in
theorem names_bump : names (front ++ (node, taken + 1) :: rest) =
    names (front ++ (node, taken) :: rest) := by
  rw [names, names, List.map_append, List.map_append, List.map_cons, List.map_cons]

/-- One more edge of a node has been taken. -/
theorem bump (front : List (T × Nat)) (sound : Sound graph state (front ++ (node, taken) :: rest))
    (edge : (graph.edges node)[taken]? = some next) (visited : state.Visited next)
    (known : next ∈ state.stack → ∃ other ∈ names (front ++ (node, taken) :: rest),
      state.number node ≤ state.number other ∧ state.lowest other ≤ state.number next) :
    Sound graph state (front ++ (node, taken + 1) :: rest) := by
  have mine : (node, taken) ∈ front ++ (node, taken) :: rest :=
    List.mem_append_right _ List.mem_cons_self
  have distinct := nodup_of_pairwise_lt sound.works
  have member_bump : ∀ {x count}, x ≠ node → (x, count) ∈ front ++ (node, taken) :: rest →
      (x, count) ∈ front ++ (node, taken + 1) :: rest := by
    intro x count apart member
    rcases List.mem_append.1 member with before | member
    · exact List.mem_append_left _ before
    · rcases List.mem_cons.1 member with same | behind
      · exact absurd (congrArg Prod.fst same) apart
      · exact List.mem_append_right _ (List.mem_cons_of_mem _ behind)
  have before : ∀ {x y}, Taken graph (front ++ (node, taken + 1) :: rest) x y →
      Taken graph (front ++ (node, taken) :: rest) x y ∨ x = node ∧ y = next := by
    rintro x y ⟨calls, all⟩
    by_cases apart : x = node
    · subst apart
      by_cases last : y = next
      · exact .inr ⟨rfl, last⟩
      · refine .inl ⟨calls, ?_⟩
        intro count member
        rw [taken_unique distinct member mine]
        have within := all (taken + 1) (List.mem_append_right _ List.mem_cons_self)
        rw [List.take_add_one, edge, Option.toList_some] at within
        exact (List.mem_append.1 within).resolve_right fun here =>
          last (List.mem_singleton.1 here)
    · exact .inl ⟨calls, fun count member => all count (member_bump apart member)⟩
  constructor
  case low_ne_none => exact sound.low_ne_none
  case fresh => exact sound.fresh
  case onStack => exact sound.onStack
  case visited => exact sound.visited
  case order => exact sound.order
  case works =>
    rw [names_bump]
    exact sound.works
  case working =>
    intro entry member
    rcases List.mem_append.1 member with ahead | member
    · exact sound.working entry (List.mem_append_left _ ahead)
    · rcases List.mem_cons.1 member with rfl | behind
      · exact ⟨(sound.working _ mine).1, (List.getElem?_eq_some_iff.1 edge).1⟩
      · exact sound.working entry (List.mem_append_right _ (List.mem_cons_of_mem _ behind))
  case closed => exact sound.closed
  case seen =>
    intro x y there all
    rcases before all with all | ⟨-, rfl⟩
    · exact sound.seen x y there all
    · exact visited
  case lowest_le => exact sound.lowest_le
  case reaches => exact sound.reaches
  case down =>
    rw [names_bump]
    exact sound.down
  case left_ =>
    rw [names_bump]
    exact sound.left_
  case crossing =>
    rw [names_bump]
    intro z working x member less y on all
    rcases before all with all | ⟨rfl, rfl⟩
    · exact sound.crossing z working x member less y on all
    · rcases known on with ⟨other, among, above, low⟩
      exact ⟨other, among, less.trans above, low⟩
  case under =>
    rw [names_bump]
    exact sound.under
  case found => exact sound.found

/-! ## Leaving a node -/

/-- All edges of a node have been taken when it is left. -/
theorem taken_of_rest (sound : Sound graph state ((node, taken) :: rest))
    (last : (graph.edges node)[taken]? = none) (all : Taken graph rest x y) :
    Taken graph ((node, taken) :: rest) x y := by
  refine ⟨all.1, ?_⟩
  intro count member
  rcases List.mem_cons.1 member with same | member
  · rcases Prod.mk.inj same with ⟨rfl, rfl⟩
    rw [List.take_of_length_le (List.getElem?_eq_none_iff.1 last)]
    exact all.1
  · exact all.2 count member

/-- What is worked on below a node was entered before it. -/
theorem number_lt (sound : Sound graph state ((node, taken) :: rest)) (member : x ∈ names rest) :
    state.number x < state.number node :=
  (List.pairwise_cons.1 sound.works).1 x member

/-- A node that reaches something entered before it is left on the stack. -/
theorem leave (sound : Sound graph state ((node, taken) :: rest))
    (last : (graph.edges node)[taken]? = none) (less : state.lowest node < state.number node)
    (parent : T) (highest : ∀ z ∈ names rest, state.number z ≤ state.number parent)
    (among : parent ∈ names rest) (told : state.lowest parent ≤ state.lowest node) :
    Sound graph state rest := by
  have further : ∀ {z}, z ∈ names rest → z ∈ names ((node, taken) :: rest) :=
    fun member => List.mem_cons_of_mem _ member
  constructor
  case low_ne_none => exact sound.low_ne_none
  case fresh => exact sound.fresh
  case onStack => exact sound.onStack
  case visited => exact sound.visited
  case order => exact sound.order
  case works => exact (List.pairwise_cons.1 sound.works).2
  case working => exact fun entry member => sound.working entry (List.mem_cons_of_mem _ member)
  case closed => exact sound.closed
  case seen => exact fun x y visited all => sound.seen x y visited (sound.taken_of_rest last all)
  case lowest_le => exact sound.lowest_le
  case reaches => exact sound.reaches
  case down => exact fun z member => sound.down z (further member)
  case left_ =>
    intro x member idle
    by_cases same : x = node
    · rw [same]
      exact less
    · apply sound.left_ x member
      intro working
      exact (List.mem_cons.1 working).elim same idle
  case crossing =>
    intro z member x on above y on' all
    rcases sound.crossing z (further member) x on above y on' (sound.taken_of_rest last all) with
      ⟨other, working, more, low⟩
    rcases List.mem_cons.1 working with rfl | working
    · exact ⟨parent, among, highest z member, told.trans low⟩
    · exact ⟨other, working, more, low⟩
  case under =>
    intro x member
    rcases sound.under x member with ⟨z, working, below⟩
    rcases List.mem_cons.1 working with rfl | working
    · exact ⟨parent, among, (sound.number_lt among).le.trans below⟩
    · exact ⟨z, working, below⟩
  case found => exact sound.found

/-! ## Closing a component -/

section Closing

variable (sound : Sound graph state ((node, taken) :: rest))
  (last : (graph.edges node)[taken]? = none) (root : state.lowest node = state.number node)

/-- What is on the stack from a node on. -/
def Above (state : Tarjan T) (node x : T) : Prop :=
  x ∈ state.stack ∧ state.number node ≤ state.number x

include sound last root in
/-- From above the root of a component an edge leads there, or to what is closed. -/
theorem calls_above (above : Above state node x) (calls : graph.Calls x y) :
    Above state node y ∨ state.Done y := by
  have all : Taken graph ((node, taken) :: rest) x y := by
    apply sound.taken_of_rest last
    refine ⟨calls, ?_⟩
    intro count member
    have less := sound.number_lt (List.mem_map_of_mem (f := Prod.fst) member)
    exact absurd above.2 (Nat.not_le_of_lt less)
  have visited := sound.seen x y (sound.visited x above.1) all
  by_cases on : y ∈ state.stack
  · refine .inl ⟨on, ?_⟩
    rcases sound.crossing node List.mem_cons_self x above.1 above.2 y on all with
      ⟨other, working, more, low⟩
    rcases List.mem_cons.1 working with rfl | working
    · rw [root] at low
      exact low
    · exact absurd more (Nat.not_le_of_lt (sound.number_lt working))
  · exact .inr ⟨visited, on⟩

theorem done_of_reach {work : Work T} (sound : Sound graph state work) (done : state.Done x)
    (reach : graph.Reach x y) : state.Done y := by
  induction reach with
  | refl => exact done
  | tail _ calls ih => exact sound.closed _ _ ih calls

include sound last root in
theorem reach_above (above : Above state node x) (reach : graph.Reach x y) :
    Above state node y ∨ state.Done y := by
  induction reach with
  | refl => exact .inl above
  | tail _ calls ih =>
      rcases ih with above | done
      · exact sound.calls_above last root above calls
      · exact .inr (sound.closed _ _ done calls)

include sound last root in
/-- What is above the root of a component leads back to it, by way of ever lower links. -/
theorem reach_root (above : Above state node x) : graph.Reach x node := by
  induction place : state.number x using Nat.strong_induction_on generalizing x with
  | _ place ih =>
      by_cases same : x = node
      · rw [same]
        exact .refl
      · have idle : x ∉ names ((node, taken) :: rest) := by
          intro working
          rcases List.mem_cons.1 working with here | working
          · exact same here
          · exact absurd above.2 (Nat.not_le_of_lt (sound.number_lt working))
        have less := sound.left_ x above.1 idle
        rcases sound.reaches x above.1 with ⟨y, on, number, reach⟩
        rcases sound.reach_above last root above reach with above' | done
        · exact ReflTransGen.trans reach (ih (state.number y) (by omega) above' rfl)
        · exact absurd on done.2

include sound last root in
/-- What is above the root of a component lies on a cycle where the component has two nodes, or
the root calls itself. -/
theorem cyclic_iff (above : Above state node x) : graph.Cyclic x ↔
    (∃ y, Above state node y ∧ y ≠ node) ∨ graph.Calls node node := by
  have mine : node ∈ names ((node, taken) :: rest) := List.mem_cons_self
  have down : ∀ {y}, Above state node y → graph.Reach node y :=
    fun above => sound.down node mine _ above.1 above.2
  have back : ∀ {y}, Above state node y → graph.Reach y node :=
    fun above => sound.reach_root last root above
  have self : Above state node node := ⟨sound.mem_stack mine, le_rfl⟩
  constructor
  · intro cyclic
    -- The cycle goes through the root, or it is one of the root alone.
    by_cases alone : ∃ y, Above state node y ∧ y ≠ node
    · exact .inl alone
    · push Not at alone
      rw [alone x above] at cyclic
      rcases TransGen.head'_iff.1 cyclic with ⟨y, calls, reach⟩
      rcases sound.calls_above last root self calls with above' | done
      · rw [alone y above'] at calls
        exact .inr calls
      · exact absurd self.1 (sound.done_of_reach done reach).2
  · rintro (⟨y, above', apart⟩ | calls)
    · have there := down above'
      have through : TransGen graph.Calls node node := by
        rcases there.cases_head with same | ⟨z, calls, reach⟩
        · exact absurd same.symm apart
        · exact TransGen.head' calls (reach.trans (back above'))
      exact (TransGen.trans_right (back above) through).trans_left (down above)
    · exact (TransGen.trans_right (back above) (.single calls)).trans_left (down above)

/-- Popping to a node takes what is on the stack before it, and the node. -/
theorem popTo_eq {stack : List T} (mine : node ∈ stack) :
    ∃ top others, stack = top ++ node :: others ∧ ∀ component,
      popTo node stack component = (others, component ++ (top ++ [node])) := by
  induction stack with
  | nil => exact absurd mine List.not_mem_nil
  | cons head stack ih =>
      by_cases here : head = node
      · refine ⟨[], stack, by rw [here]; rfl, ?_⟩
        intro component
        rw [popTo, if_pos here, here]
        rfl
      · rcases ih ((List.mem_cons.1 mine).resolve_left fun same => here same.symm) with
          ⟨top, others, rfl, pops⟩
        refine ⟨head :: top, others, rfl, ?_⟩
        intro component
        rw [popTo, if_neg here, pops, List.append_assoc, List.singleton_append, List.cons_append]

include sound last root in
/-- A node that reaches nothing entered before it is the root of a component, and what is above
it on the stack is that component. -/
theorem close : Sound graph (state.close graph node) rest := by
  have mine := sound.mem_stack (x := node) List.mem_cons_self
  rcases popTo_eq mine with ⟨top, others, whole, pops⟩
  have order := sound.order
  rw [whole, List.pairwise_append] at order
  rcases order with ⟨-, below, across⟩
  rw [List.pairwise_cons] at below
  have closed : state.close graph node =
      { state with
        stack := others
        onStack := fun x => state.onStack x && !(top ++ [node]).contains x
        found :=
          if 1 < (top ++ [node]).length ∨ node ∈ graph.edges node then
            state.found ++ (top ++ [node])
          else state.found } := by
    rw [Tarjan.close, pops, List.nil_append]
  have members : ∀ x, x ∈ state.stack ↔ x ∈ top ++ [node] ∨ x ∈ others := by
    intro x
    rw [whole, List.append_cons, List.mem_append]
  have component : ∀ x, x ∈ top ++ [node] ↔ Above state node x := by
    intro x
    constructor
    · intro member
      refine ⟨(members x).2 (.inl member), ?_⟩
      rcases List.mem_append.1 member with member | member
      · exact (across x member node List.mem_cons_self).le
      · rw [List.mem_singleton.1 member]
    · rintro ⟨on, less⟩
      apply ((members x).1 on).resolve_right
      intro behind
      exact absurd less (Nat.not_le_of_lt (below.1 x behind))
  have kept : ∀ x, x ∈ others ↔ x ∈ state.stack ∧ state.number x < state.number node := by
    intro x
    constructor
    · exact fun member => ⟨(members x).2 (.inr member), below.1 x member⟩
    · rintro ⟨on, less⟩
      apply ((members x).1 on).resolve_left
      intro above
      exact absurd less (Nat.not_lt_of_le ((component x).1 above).2)
  have done : ∀ x, (state.close graph node).Done x ↔ state.Done x ∨ Above state node x := by
    intro x
    rw [closed]
    show state.Visited x ∧ x ∉ others ↔ _
    rw [kept]
    constructor
    · rintro ⟨visited, off⟩
      by_cases on : x ∈ state.stack
      · exact .inr ⟨on, Nat.le_of_not_lt fun less => off ⟨on, less⟩⟩
      · exact .inl ⟨visited, on⟩
    · rintro (⟨visited, off⟩ | above)
      · exact ⟨visited, fun on => off on.1⟩
      · exact ⟨sound.visited x above.1, fun on => absurd above.2 (Nat.not_le_of_lt on.2)⟩
  have further : ∀ {z}, z ∈ names rest → z ∈ names ((node, taken) :: rest) :=
    fun member => List.mem_cons_of_mem _ member
  constructor
  case low_ne_none => rw [closed]; exact sound.low_ne_none
  case fresh => rw [closed]; exact sound.fresh
  case onStack =>
    intro x
    rw [closed]
    show (state.onStack x && !(top ++ [node]).contains x) = true ↔ x ∈ others
    rw [Bool.and_eq_true, sound.onStack, Bool.not_eq_true', ← Bool.not_eq_true,
      List.contains_iff_mem, component, kept]
    constructor
    · rintro ⟨on, off⟩
      exact ⟨on, Nat.lt_of_not_le fun less => off ⟨on, less⟩⟩
    · rintro ⟨on, less⟩
      exact ⟨on, fun above => absurd above.2 (Nat.not_le_of_lt less)⟩
  case visited =>
    intro x member
    rw [closed] at member ⊢
    exact sound.visited x ((kept x).1 member).1
  case order =>
    rw [closed]
    exact below.2
  case works =>
    rw [closed]
    exact (List.pairwise_cons.1 sound.works).2
  case working =>
    intro entry member
    rw [closed]
    rcases sound.working entry (List.mem_cons_of_mem _ member) with ⟨on, within⟩
    exact ⟨(kept entry.1).2 ⟨on, sound.number_lt (List.mem_map_of_mem (f := Prod.fst) member)⟩,
      within⟩
  case closed =>
    intro x y finished calls
    rw [done] at finished ⊢
    rcases finished with finished | above
    · exact .inl (sound.closed x y finished calls)
    · exact (sound.calls_above last root above calls).symm
  case seen =>
    intro x y visited all
    rw [closed] at visited ⊢
    exact sound.seen x y visited (sound.taken_of_rest last all)
  case lowest_le =>
    intro x member
    rw [closed] at member ⊢
    exact sound.lowest_le x ((kept x).1 member).1
  case reaches =>
    intro x member
    rw [closed] at member ⊢
    rcases (kept x).1 member with ⟨on, less⟩
    rcases sound.reaches x on with ⟨y, on', same, reach⟩
    have low := sound.lowest_le x on
    exact ⟨y, (kept y).2 ⟨on', by omega⟩, same, reach⟩
  case down =>
    intro z working x member less
    rw [closed] at member less
    exact sound.down z (further working) x ((kept x).1 member).1 less
  case left_ =>
    intro x member idle
    rw [closed] at member ⊢
    rcases (kept x).1 member with ⟨on, less⟩
    apply sound.left_ x on
    intro working
    rcases List.mem_cons.1 working with rfl | working
    · exact Nat.lt_irrefl _ less
    · exact idle working
  case crossing =>
    intro z working x member less y member' all
    rw [closed] at member less member' ⊢
    rcases (kept y).1 member' with ⟨on', less'⟩
    rcases sound.crossing z (further working) x ((kept x).1 member).1 less y on'
      (sound.taken_of_rest last all) with ⟨other, among, more, low⟩
    rcases List.mem_cons.1 among with rfl | among
    · rw [root] at low
      exact absurd low (Nat.not_le_of_lt less')
    · exact ⟨other, among, more, low⟩
  case under =>
    intro x member
    rw [closed] at member
    rcases (kept x).1 member with ⟨on, less⟩
    rcases sound.under x on with ⟨z, working, low⟩
    rcases List.mem_cons.1 working with rfl | working
    · exact absurd low (Nat.not_le_of_lt less)
    · rw [closed]
      exact ⟨z, working, low⟩
  case found =>
    intro x
    have cyclic : (1 < (top ++ [node]).length ∨ node ∈ graph.edges node) ↔
        (∃ y, Above state node y ∧ y ≠ node) ∨ graph.Calls node node := by
      apply or_congr_left
      rw [List.length_append, List.length_singleton]
      constructor
      · intro several
        rcases List.exists_mem_of_length_pos (l := top) (by omega) with ⟨y, member⟩
        refine ⟨y, (component y).1 (List.mem_append_left _ member), ?_⟩
        rintro rfl
        exact Nat.lt_irrefl _ (across y member y List.mem_cons_self)
      · rintro ⟨y, above, apart⟩
        have member := ((component y).2 above)
        rcases List.mem_append.1 member with member | member
        · have := List.length_pos_of_mem member
          omega
        · exact absurd (List.mem_singleton.1 member) apart
    rw [done, closed]
    show x ∈ (if 1 < (top ++ [node]).length ∨ node ∈ graph.edges node then
      state.found ++ (top ++ [node]) else state.found) ↔ _
    by_cases round : 1 < (top ++ [node]).length ∨ node ∈ graph.edges node
    · rw [if_pos round, List.mem_append, sound.found, component]
      constructor
      · rintro (⟨finished, turns⟩ | above)
        · exact ⟨.inl finished, turns⟩
        · exact ⟨.inr above, (sound.cyclic_iff last root above).2 (cyclic.1 round)⟩
      · rintro ⟨finished | above, turns⟩
        · exact .inl ⟨finished, turns⟩
        · exact .inr above
    · rw [if_neg round, sound.found]
      constructor
      · exact fun ⟨finished, turns⟩ => ⟨.inl finished, turns⟩
      · rintro ⟨finished | above, turns⟩
        · exact ⟨finished, turns⟩
        · exact absurd (cyclic.2 ((sound.cyclic_iff last root above).1 turns)) round

end Closing

end Sound

/-! ## The loop -/

/-- The edges that are still to be taken, and the nodes that are still to be left. -/
def cost (graph : CallGraph T) (state : Tarjan T) (work : Work T) : Nat :=
  (work.map fun entry => (graph.edges entry.1).length - entry.2 + 1).sum +
    ∑ node ∈ graph.nodes.toFinset with state.index node = none, ((graph.edges node).length + 1)

theorem cost_enter (unknown : state.index next = none) (inside : next ∈ graph.nodes) :
    cost graph (state.enter next) ((next, 0) :: work) = cost graph state work := by
  have fewer : (graph.nodes.toFinset.filter fun node => (state.enter next).index node = none) =
      (graph.nodes.toFinset.filter fun node => state.index node = none).erase next := by
    ext node
    rw [Finset.mem_filter, Finset.mem_erase, Finset.mem_filter]
    show node ∈ _ ∧ Function.update state.index next (some state.next) node = none ↔ _
    by_cases same : node = next
    · rw [same, Function.update_self]
      simp
    · rw [Function.update_of_ne same]
      simp [same]
  have member : next ∈ graph.nodes.toFinset.filter fun node => state.index node = none :=
    Finset.mem_filter.2 ⟨List.mem_toFinset.2 inside, unknown⟩
  rw [cost, cost, fewer, List.map_cons, List.sum_cons,
    ← Finset.add_sum_erase _ (fun node => (graph.edges node).length + 1) member]
  dsimp only
  omega

theorem cost_le_turns : cost graph state [] ≤ graph.turns := by
  have nodes : graph.nodes.Nodup := List.nodup_dedup _
  rw [cost, List.map_nil, List.sum_nil, Nat.zero_add, CallGraph.turns,
    ← List.sum_toFinset _ nodes]
  exact Finset.sum_le_sum_of_subset (Finset.filter_subset _ _)

theorem cost_bump (edge : (graph.edges node)[taken]? = some next) :
    cost graph state ((node, taken + 1) :: rest) < cost graph state ((node, taken) :: rest) := by
  have less := (List.getElem?_eq_some_iff.1 edge).1
  rw [cost, cost, List.map_cons, List.map_cons, List.sum_cons, List.sum_cons]
  dsimp only
  omega

theorem cost_rest {low : T → Option Nat} {onStack : T → Bool} {stack found : List T} :
    cost graph { state with low, onStack, stack, found } rest <
      cost graph state ((node, taken) :: rest) := by
  rw [cost, cost, List.map_cons, List.sum_cons]
  dsimp only
  omega

/-- One turn of the loop takes an edge. -/
theorem step_edge (sound : Sound graph state ((node, taken) :: rest))
    (edge : (graph.edges node)[taken]? = some next) :
    ∃ state' work', step graph state node taken rest = some (state', work') ∧
      Sound graph state' work' ∧ (∀ x, state.Visited x → state'.Visited x) ∧
        cost graph state' work' < cost graph state ((node, taken) :: rest) := by
  have calls : graph.Calls node next := List.mem_of_getElem? edge
  have on : node ∈ state.stack := sound.mem_stack (List.mem_cons_self (l := names rest))
  have inside : next ∈ graph.nodes := (CallGraph.mem_nodes_of_calls calls).2
  rw [step, edge]
  dsimp only
  by_cases unknown : state.index next = none
  · rw [if_pos unknown]
    refine ⟨_, _, rfl, ?_, fun x visited => Sound.visited_enter.2 (.inr visited), ?_⟩
    · have reach : ∀ z ∈ names ((node, taken) :: rest), graph.Reach z next := by
        intro z working
        refine ReflTransGen.tail (sound.down z working node on ?_) calls
        rcases List.mem_cons.1 working with rfl | working
        · exact le_rfl
        · exact (sound.number_lt working).le
      have apart : node ≠ next := by
        rintro rfl
        exact sound.visited node on unknown
      refine (sound.enter unknown reach).bump [(next, 0)] edge
        (Sound.visited_enter.2 (.inl rfl)) ?_
      intro _
      refine ⟨next, List.mem_cons_self, ?_, ?_⟩
      · rw [Sound.number_enter apart, Sound.number_enter_self]
        exact (sound.fresh node (sound.visited node on)).le
      · rw [Sound.lowest_enter_self, Sound.number_enter_self]
    · rw [cost_enter unknown inside]
      exact cost_bump edge
  · rw [if_neg unknown]
    rcases Option.ne_none_iff_exists'.1 unknown with ⟨seen, index⟩
    by_cases there : state.onStack next = true
    · have on' := (sound.onStack next).1 there
      rcases Option.ne_none_iff_exists'.1 (sound.low_ne_none node (sound.visited node on)) with
        ⟨low, linked⟩
      have number : state.number next = seen := by rw [number, index]; rfl
      have lowest : state.lowest node = low := by rw [lowest, linked]; rfl
      rw [if_pos there, index, Option.bind_some, lower, linked]
      refine ⟨_, _, rfl, ?_, fun x visited => visited, cost_bump edge⟩
      have target : ∃ other ∈ state.stack, state.number other = min low seen ∧
          graph.Reach node other := by
        rcases Nat.le_total low seen with less | more
        · rcases sound.reaches node on with ⟨other, on, same, reach⟩
          exact ⟨other, on, by rw [same, lowest, Nat.min_eq_left less], reach⟩
        · exact ⟨next, on', by rw [number, Nat.min_eq_right more], .single calls⟩
      rcases target with ⟨other, on, same, reach⟩
      refine (sound.lowered on reach same (by rw [lowest]; exact Nat.min_le_left _ _)).bump
        [] edge unknown ?_
      intro _
      refine ⟨node, List.mem_cons_self, le_rfl, ?_⟩
      show (Function.update state.low node (some (min low seen)) node).getD 0 ≤ state.number next
      rw [Function.update_self, number]
      exact Nat.min_le_right _ _
    · rw [if_neg there]
      refine ⟨_, _, rfl, ?_, fun x visited => visited, cost_bump edge⟩
      exact sound.bump [] edge unknown fun on => absurd ((sound.onStack next).2 on) there

/-- One turn of the loop leaves a node. -/
theorem step_leave (sound : Sound graph state ((node, taken) :: rest))
    (last : (graph.edges node)[taken]? = none) :
    ∃ state' work', step graph state node taken rest = some (state', work') ∧
      Sound graph state' work' ∧ (∀ x, state.Visited x → state'.Visited x) ∧
        cost graph state' work' < cost graph state ((node, taken) :: rest) := by
  have on : node ∈ state.stack := sound.mem_stack (List.mem_cons_self (l := names rest))
  rcases Option.ne_none_iff_exists'.1 (sound.low_ne_none node (sound.visited node on)) with
    ⟨low, linked⟩
  rcases Option.ne_none_iff_exists'.1 (sound.visited node on) with ⟨index, numbered⟩
  have number : state.number node = index := by rw [number, numbered]; rfl
  have lowest : state.lowest node = low := by rw [lowest, linked]; rfl
  rw [step, last]
  dsimp only
  rw [linked, Option.bind_some, numbered, Option.bind_some]
  by_cases root : low = index
  · have closed := sound.close last (by rw [number, lowest, root])
    rw [if_pos root]
    cases rest with
    | nil => exact ⟨_, _, rfl, closed, fun x visited => visited, cost_rest⟩
    | cons parent rest =>
        -- The root of a component is above its parent, whose link stays as it is.
        have among : parent.1 ∈ names (parent :: rest) := List.mem_cons_self
        have on' := closed.mem_stack among
        rcases Option.ne_none_iff_exists'.1
          (closed.low_ne_none parent.1 (closed.visited parent.1 on')) with ⟨above, linked'⟩
        have lowest' : (state.close graph node).lowest parent.1 = above := by
          rw [Tarjan.lowest, linked']
          rfl
        have kept : (state.close graph node).low node = some low := linked
        have smaller : above ≤ low := by
          have := closed.lowest_le parent.1 on'
          have less : state.number parent.1 < state.number node := sound.number_lt among
          rw [lowest'] at this
          have same : (state.close graph node).number parent.1 = state.number parent.1 := rfl
          omega
        dsimp only
        rw [kept, Option.bind_some, lower, linked']
        refine ⟨_, _, rfl, ?_, fun x visited => visited, cost_rest⟩
        rcases closed.reaches parent.1 on' with ⟨other, on, same, reach⟩
        refine closed.lowered on reach ?_ ?_
        · rw [same, lowest', Nat.min_eq_left smaller]
        · rw [lowest']
          exact Nat.min_le_left _ _
  · have less : state.lowest node < state.number node := by
      have := sound.lowest_le node on
      omega
    rw [if_neg root]
    cases rest with
    | nil =>
        -- Nothing on the stack was entered before the node that was entered first.
        rcases sound.reaches node on with ⟨other, on', same, -⟩
        rcases sound.under other on' with ⟨z, working, below⟩
        rw [List.mem_singleton.1 working] at below
        dsimp only at below
        omega
    | cons parent rest =>
        have among : parent.1 ∈ names (parent :: rest) := List.mem_cons_self
        have further : parent.1 ∈ names ((node, taken) :: parent :: rest) :=
          List.mem_cons_of_mem _ among
        have on' := sound.mem_stack further
        have under := sound.number_lt among
        rcases Option.ne_none_iff_exists'.1
          (sound.low_ne_none parent.1 (sound.visited parent.1 on')) with ⟨above, linked'⟩
        have lowest' : state.lowest parent.1 = above := by rw [Tarjan.lowest, linked']; rfl
        dsimp only
        rw [linked, Option.bind_some, lower, linked']
        refine ⟨_, _, rfl, ?_, fun x visited => visited, cost_rest⟩
        have target : ∃ other ∈ state.stack, state.number other = min above low ∧
            graph.Reach parent.1 other := by
          rcases Nat.le_total above low with less | more
          · rcases sound.reaches parent.1 on' with ⟨other, on, same, reach⟩
            exact ⟨other, on, by rw [same, lowest', Nat.min_eq_left less], reach⟩
          · rcases sound.reaches node on with ⟨other, on'', same, reach⟩
            refine ⟨other, on'', by rw [same, lowest, Nat.min_eq_right more], ?_⟩
            exact ReflTransGen.trans (sound.down parent.1 further node on under.le) reach
        rcases target with ⟨other, on'', same, reach⟩
        have apart : node ≠ parent.1 := by
          intro same
          rw [← same] at under
          exact Nat.lt_irrefl _ under
        have kept : (Function.update state.low parent.1 (some (min above low)) node).getD 0 = low := by
          rw [Function.update_of_ne apart, linked]
          rfl
        have told : (Function.update state.low parent.1 (some (min above low)) parent.1).getD 0 =
            min above low := by
          rw [Function.update_self]
          rfl
        have lowered := sound.lowered on'' reach same (by rw [lowest']; exact Nat.min_le_left _ _)
        refine lowered.leave last ?_ parent.1 ?_ among ?_
        · show (Function.update state.low parent.1 (some (min above low)) node).getD 0 <
            state.number node
          rw [kept, ← lowest]
          exact less
        · intro z working
          rcases List.mem_cons.1 working with rfl | working
          · exact le_rfl
          · have order := (List.pairwise_cons.1 sound.works).2
            exact ((List.pairwise_cons.1 order).1 z working).le
        · show (Function.update state.low parent.1 (some (min above low)) parent.1).getD 0 ≤
            (Function.update state.low parent.1 (some (min above low)) node).getD 0
          rw [kept, told]
          exact Nat.min_le_right _ _

/-- One turn of the loop keeps the state sound and comes nearer to the end. -/
theorem step_sound (sound : Sound graph state ((node, taken) :: rest)) :
    ∃ state' work', step graph state node taken rest = some (state', work') ∧
      Sound graph state' work' ∧ (∀ x, state.Visited x → state'.Visited x) ∧
        cost graph state' work' < cost graph state ((node, taken) :: rest) := by
  cases edge : (graph.edges node)[taken]? with
  | some next => exact step_edge sound edge
  | none => exact step_leave sound edge

theorem loop_sound {turns : Nat} (sound : Sound graph state work)
    (enough : cost graph state work ≤ turns) :
    ∃ state', loop graph turns state work = some state' ∧ Sound graph state' [] ∧
      ∀ x, state.Visited x → state'.Visited x := by
  induction turns generalizing state work with
  | zero =>
      cases work with
      | nil => exact ⟨state, rfl, sound, fun _ visited => visited⟩
      | cons entry rest =>
          rw [cost, List.map_cons, List.sum_cons] at enough
          omega
  | succ turns ih =>
      cases work with
      | nil => exact ⟨state, rfl, sound, fun _ visited => visited⟩
      | cons entry rest =>
          rcases entry with ⟨node, taken⟩
          rcases step_sound sound with ⟨state', work', stepped, sound', kept, less⟩
          rcases ih sound' (by omega) with ⟨state'', ended, sound'', kept'⟩
          refine ⟨state'', ?_, sound'', fun x visited => kept' x (kept x visited)⟩
          rw [loop, stepped, Option.bind_some]
          exact ended

theorem run_sound (sound : Sound graph state []) (unknown : state.index node = none)
    (key : node ∈ graph.keys) :
    ∃ state', run graph state node = some state' ∧ Sound graph state' [] ∧
      (∀ x, state.Visited x → state'.Visited x) ∧ state'.Visited node := by
  have entered := sound.enter unknown fun z working => absurd working List.not_mem_nil
  have enough : cost graph (state.enter node) [(node, 0)] ≤ graph.turns := by
    rw [cost_enter unknown (CallGraph.mem_nodes_of_key key)]
    exact cost_le_turns
  rcases loop_sound entered enough with ⟨state', ended, sound', kept⟩
  exact ⟨state', ended, sound', fun x visited => kept x (Sound.visited_enter.2 (.inr visited)),
    kept node (Sound.visited_enter.2 (.inl rfl))⟩

/-- The loop over the roots. -/
theorem roots_sound {roots : List T} (keys : ∀ root ∈ roots, root ∈ graph.keys)
    (sound : Sound graph state []) :
    ∃ state', roots.foldlM (fun state root =>
        if state.index root = none then state.run graph root else some state) state =
          some state' ∧ Sound graph state' [] ∧ (∀ x, state.Visited x → state'.Visited x) ∧
      ∀ root ∈ roots, state'.Visited root := by
  induction roots generalizing state with
  | nil =>
      exact ⟨state, rfl, sound, fun _ visited => visited, fun _ absent =>
        absurd absent List.not_mem_nil⟩
  | cons root roots ih =>
      rw [List.forall_mem_cons] at keys
      have first : ∃ state', (if state.index root = none then state.run graph root
          else some state) = some state' ∧ Sound graph state' [] ∧
          (∀ x, state.Visited x → state'.Visited x) ∧ state'.Visited root := by
        by_cases unknown : state.index root = none
        · rw [if_pos unknown]
          exact run_sound sound unknown keys.1
        · rw [if_neg unknown]
          exact ⟨state, rfl, sound, fun _ visited => visited, unknown⟩
      rcases first with ⟨state', ran, sound', kept, visited⟩
      rcases ih keys.2 sound' with ⟨state'', ended, sound'', kept', all⟩
      refine ⟨state'', ?_, sound'', fun x visited => kept' x (kept x visited), ?_⟩
      · rw [List.foldlM_cons, ran]
        exact ended
      · exact List.forall_mem_cons.2 ⟨kept' root visited, all⟩

end Tarjan

/-- The nodes that are found are those from which a path of at least one edge leads back. -/
theorem onACycle_exact {T : Type} [LinearOrder T] (graph : CallGraph T) :
    ∃ found, onACycle graph = some found ∧ ∀ node, node ∈ found ↔ graph.Cyclic node := by
  have keys : ∀ root ∈ graph.keys.insertionSort (· ≤ ·), root ∈ graph.keys :=
    fun root member => (List.mem_insertionSort _).1 member
  rcases Tarjan.roots_sound keys Tarjan.sound_new with ⟨state, ran, sound, -, visited⟩
  refine ⟨state.found, by rw [onACycle, ran]; rfl, ?_⟩
  intro node
  rw [sound.found]
  constructor
  · exact And.right
  · intro cyclic
    refine ⟨⟨?_, ?_⟩, cyclic⟩
    · rcases TransGen.head'_iff.1 cyclic with ⟨next, calls, -⟩
      apply visited node
      exact (List.mem_insertionSort _).2 (CallGraph.mem_nodes_of_calls calls).1
    · intro on
      rcases sound.under node on with ⟨z, working, -⟩
      exact absurd working List.not_mem_nil

end Deed.Effects
