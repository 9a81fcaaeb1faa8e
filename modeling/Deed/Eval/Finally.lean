import Deed.Eval.Installed

/-!
# `finally`

`run_finally_blocks` against what it is for: the cleanup of every handler a `with`
installed runs once, the most recently installed first, from the state the body left.
Which of the signals survives is decided once, before the first block runs, so a later
block that ends early replaces what an earlier one failed with.
-/

namespace Deed.Eval

open Deed.Ast
open Deed.Library
open Action

variable {World : Type} {α β : Type}

/-! ## What a handler declares -/

namespace Code

variable {code : Code}

theorem find?_of_mem {entries : List (DefId × HandlerDecl)} {handler : DefId}
    {declaration : HandlerDecl} (distinct : (entries.map Prod.fst).Nodup)
    (declared : (handler, declaration) ∈ entries) :
    entries.find? (fun entry => entry.1 == handler) = some (handler, declaration) := by
  induction entries with
  | nil => cases declared
  | cons head rest ih =>
      rw [List.map_cons, List.nodup_cons] at distinct
      rcases List.mem_cons.1 declared with rfl | later
      · exact List.find?_cons_of_pos (beq_self_eq_true handler)
      · have other : (head.1 == handler) = false := by
          rw [beq_eq_false_iff_ne]
          intro same
          apply distinct.1
          rw [same]
          exact List.mem_map_of_mem (f := Prod.fst) later
        rw [List.find?_cons, other]
        exact ih distinct.2 later

theorem handlerDecl_of_mem {handler : DefId} {declaration : HandlerDecl}
    (declared : (handler, declaration) ∈ code.handlerDecls) :
    code.handlerDecl handler = some declaration := by
  rw [handlerDecl, find?_of_mem code.handlersDistinct declared]
  rfl

end Code

/-- The handler that a name refers to is declared in its home under its definition. -/
theorem handlerAt_declared {program : Program} {current : Nat} {code : Code}
    {definition : DefId} {home : Nat} {handler : DefId} {declaration : HandlerDecl}
    (at_current : program.modules[current]? = some code)
    (found : program.handlerAt current code definition = some (home, handler, declaration)) :
    ∃ there, program.modules[home]? = some there ∧
      there.handlerDecl handler = some declaration := by
  unfold Program.handlerAt at found
  split at found
  · rcases Option.map_eq_some_iff.1 found with ⟨declared, at_definition, same⟩
    cases same
    exact ⟨code, at_current, at_definition⟩
  · split at found
    · rcases Option.bind_eq_some_iff.1 found with ⟨path, -, found⟩
      rcases Option.bind_eq_some_iff.1 found with ⟨index, -, found⟩
      rcases Option.bind_eq_some_iff.1 found with ⟨there, at_index, found⟩
      rcases Option.bind_eq_some_iff.1 found with ⟨entry, named, same⟩
      cases same
      exact ⟨there, at_index, Code.handlerDecl_of_mem (List.mem_of_find?_eq_some named)⟩
    · exact absurd found.symm (Option.some_ne_none _)

/-- The handler is declared in its home, with its `finally` block. -/
def Declared (program : Program) (named : Named) : Prop :=
  ∃ there, program.modules[named.home]? = some there ∧
    (there.handlerDecl named.handler).bind HandlerDecl.finallyBlock = named.finallyBlock

theorem namedBy_declared {program : Program} {current : Nat} {expr : Expr} {named : Named}
    (names : namedBy program current expr = some named) : Declared program named := by
  rcases Option.bind_eq_some_iff.1 names with ⟨code, at_current, names⟩
  rcases Option.bind_eq_some_iff.1 names with ⟨definition, -, names⟩
  rcases Option.bind_eq_some_iff.1 names with ⟨⟨home, handler, declaration⟩, found, names⟩
  rcases Option.bind_eq_some_iff.1 names with ⟨effect, -, same⟩
  rcases handlerAt_declared at_current found with ⟨there, at_home, declared⟩
  rw [← Option.some.inj same]
  refine ⟨there, at_home, ?_⟩
  show (there.handlerDecl handler).bind _ = _
  rw [declared]
  rfl

/-! ## What cleaning up is for -/

section Cleanup

variable (program : Program) (outside : Outside World) (eval : Expr → Eval World Value)

/-- Runs `finally` blocks one after the other, each once, and says how each ended. -/
def cleanUp : List (Nat × Nat × Block) → Eval World (List (Except Signal Value))
  | [] => pure []
  | (index, home, block) :: rest => do
      let ended ← runFinally program outside eval index home block
      let others ← cleanUp rest
      pure (ended :: others)

/-- The `finally` blocks of handlers that stand at the positions given. -/
def blocksOf (standing : List (Named × Nat)) : List (Nat × Nat × Block) :=
  standing.filterMap fun entry =>
    entry.1.finallyBlock.map fun block => (entry.2, entry.1.home, block)

/-- The `finally` blocks of the handlers installed from a position on, the most recently
installed first. -/
def cleanups (base : Nat) (named : List Named) : List (Nat × Nat × Block) :=
  blocksOf (named.zipIdx base).reverse

/-- The handlers of a `with` were installed, as far as they could be, and its body ran
where all of them were: `ended` is how that ended, and `left` the state it left. -/
structure Entered (handlers : List Expr) (body : Block) (state : Interp World)
    (named : List Named) (ended : Except Signal Value) (left : Interp World) : Prop where
  ran : (do
    installAll program eval handlers
    evalBlock program outside eval body : Eval World Value) state = some (ended, left)
  names : named.map some = (handlers.take named.length).map (namedBy program state.current)
  installed : left.installed = state.installed ++ named.map Named.identity

end Cleanup

/-- The failure of the first block that failed. -/
def firstFailure : List (Except Signal Value) → Option Diagnostic
  | [] => none
  | .error (.fail diagnostic) :: _ => some diagnostic
  | .error (.return _) :: rest => firstFailure rest
  | .ok _ :: rest => firstFailure rest

/-- The signal of the last block that did not end normally. -/
def lastSignal : List (Except Signal Value) → Option Signal
  | [] => none
  | .error signal :: rest => some ((lastSignal rest).getD signal)
  | .ok _ :: rest => lastSignal rest

/-- The outcome a `with` is for: the body's own failure, or else that of the first block
that failed, or else the body's own outcome. -/
def firstToFail (ended : Except Signal Value) (endings : List (Except Signal Value)) :
    Except Signal Value :=
  if failed ended then ended
  else
    match firstFailure endings with
    | some diagnostic => .error (.fail diagnostic)
    | none => ended

/-- The last block that did not end normally hides nothing: the body failed, or the block
failed with what the first that failed did, or no block failed and the block returned what
the body did. -/
def HidesNothing (ended : Except Signal Value) (endings : List (Except Signal Value)) : Prop :=
  failed ended = true ∨
    lastSignal endings = (firstFailure endings).map Signal.fail ∨
    firstFailure endings = none ∧ ∃ signal, lastSignal endings = some signal ∧
      ended = .error signal

theorem lastSignal_ne_none {endings : List (Except Signal Value)} {diagnostic : Diagnostic}
    (first : firstFailure endings = some diagnostic) : lastSignal endings ≠ none := by
  induction endings with
  | nil => cases first
  | cons head rest ih =>
      cases head with
      | ok value => exact ih first
      | error signal => exact Option.some_ne_none _

theorem foldl_replaced_failed (outcome : Except Signal Value)
    (endings : List (Except Signal Value)) :
    endings.foldl (replaced true) outcome = outcome := by
  induction endings with
  | nil => rfl
  | cons head rest ih => exact ih

theorem foldl_replaced (outcome : Except Signal Value)
    (endings : List (Except Signal Value)) :
    endings.foldl (replaced false) outcome =
      ((lastSignal endings).map Except.error).getD outcome := by
  induction endings generalizing outcome with
  | nil => rfl
  | cons head rest ih =>
      rw [List.foldl_cons, ih]
      cases head with
      | ok value => rfl
      | error signal =>
          rw [lastSignal]
          cases lastSignal rest with
          | none => rfl
          | some later => rfl

/-- The code's choice of outcome is the one meant exactly where nothing is hidden. -/
theorem foldl_replaced_eq_iff (ended : Except Signal Value)
    (endings : List (Except Signal Value)) :
    endings.foldl (replaced (failed ended)) ended = firstToFail ended endings ↔
      HidesNothing ended endings := by
  cases body : failed ended with
  | true =>
      rw [foldl_replaced_failed, firstToFail, if_pos body]
      exact iff_of_true rfl (Or.inl body)
  | false =>
      rw [foldl_replaced, firstToFail, if_neg (by rw [body]; exact Bool.false_ne_true),
        HidesNothing, body]
      cases last : lastSignal endings with
      | none =>
          cases first : firstFailure endings with
          | none => simp
          | some diagnostic => exact absurd last (lastSignal_ne_none first)
      | some signal =>
          cases first : firstFailure endings with
          | none => simp [eq_comm]
          | some diagnostic => simp

/-! ## What the code does -/

section Runs

variable (program : Program) (outside : Outside World) {eval : Expr → Eval World Value}
  (steady : ∀ expr, Steady (eval expr))

include steady

/-- The blocks of handlers that stand at some positions run once each, in that order. -/
theorem finallyBlocks_cases {bodyFailed : Bool} {standing : List (Named × Nat)}
    {outcome : Except Signal Value} {state later : Interp World}
    {ended : Except Signal (Except Signal Value)}
    (declared : ∀ entry ∈ standing, Declared program entry.1)
    (stands : ∀ entry ∈ standing, state.installed[entry.2]? = some entry.1.identity)
    (ran : finallyBlocks program outside eval bodyFailed (standing.map Prod.snd) outcome
      state = some (ended, later)) :
    ∃ endings, cleanUp program outside eval (blocksOf standing) state =
        some (.ok endings, later) ∧
      ended = .ok (endings.foldl (replaced bodyFailed) outcome) := by
  induction standing generalizing state outcome with
  | nil =>
      rcases Prod.mk.inj (Option.some.inj ran) with ⟨rfl, rfl⟩
      exact ⟨[], rfl, rfl⟩
  | cons entry rest ih =>
      have others := fun other member => declared other (List.mem_cons_of_mem entry member)
      rcases declared entry List.mem_cons_self with ⟨there, at_home, declares⟩
      rcases handlerInstalled_bind_cases ran with ⟨found, at_index, ran⟩
      have same : found.identity = entry.1.identity := by
        have standing := stands entry List.mem_cons_self
        rw [Interp.installed, List.getElem?_map, at_index] at standing
        exact Option.some.inj standing
      rcases found with ⟨handler, home, effect, fields⟩
      cases same
      rw [at_home] at ran
      dsimp only at ran
      rw [declares] at ran
      cases block : entry.1.finallyBlock with
      | none =>
          rw [block] at ran
          have blocks : blocksOf (entry :: rest) = blocksOf rest := by
            rw [blocksOf, List.filterMap_cons, block]
            rfl
          rw [blocks]
          exact ih others (fun other member => stands other (List.mem_cons_of_mem entry member))
            ran
      | some cleanup =>
          rw [block] at ran
          have blocks : blocksOf (entry :: rest) =
              (entry.2, entry.1.home, cleanup) :: blocksOf rest := by
            rw [blocksOf, List.filterMap_cons, block]
            rfl
          rcases attempt_bind_cases ran with ⟨how, between, done, ran⟩
          have finished : runFinally program outside eval entry.2 entry.1.home cleanup state =
              some (.ok how, between) := run_attempt done
          have balanced := runFinally_steady program outside steady _ _ _ finished
          have standing : ∀ other ∈ rest,
              between.installed[other.2]? = some other.1.identity := by
            intro other member
            rw [balanced.installed]
            exact stands other (List.mem_cons_of_mem entry member)
          rcases ih others standing ran with ⟨endings, cleaned, same⟩
          refine ⟨how :: endings, ?_, same⟩
          rw [blocks, cleanUp, run_bind_ok finished, run_bind_ok cleaned]
          rfl

omit steady in
/-- Handlers installed on top of others stand where they were put. -/
theorem stands_above {state left : Interp World} {named : List Named}
    (installed : left.installed = state.installed ++ named.map Named.identity)
    (entry : Named × Nat) (member : entry ∈ named.zipIdx state.handlers.length) :
    left.installed[entry.2]? = some entry.1.identity := by
  rcases List.mem_zipIdx_iff_le_and_getElem?_sub.1 member with ⟨above, at_index⟩
  have length : state.installed.length = state.handlers.length := List.length_map ..
  rw [installed, List.getElem?_append_right (by rw [length]; exact above), length,
    List.getElem?_map, at_index]
  rfl

/-- The `finally` block of every handler a `with` installed runs once, the most recently
installed first, from the state the body left; and the outcome is the one meant exactly
where the last signal hides nothing. -/
theorem evalWith_cases {handlers : List Expr} {body : Block} {state later : Interp World}
    {result : Except Signal Value}
    (ran : evalWith program outside eval handlers body state = some (result, later)) :
    ∃ named ended left endings after,
      Entered program outside eval handlers body state named ended left ∧
      cleanUp program outside eval (cleanups state.handlers.length named) left =
        some (.ok endings, after) ∧
      later = { after with handlers := after.handlers.take state.handlers.length } ∧
      result = endings.foldl (replaced (failed ended)) ended := by
  rw [evalWith, run_look_bind] at ran
  rcases attempt_bind_cases ran with ⟨ended, left, entered, ran⟩
  rcases entered_cases program outside steady entered with ⟨named, names, balanced⟩
  have installed : left.installed = state.installed ++ named.map Named.identity := by
    rw [balanced.installed, installed_above, List.map_map]
    rfl
  rcases bind_cases ran with ⟨outcome, after, cleaned, ran⟩ | ⟨signal, cleaned, -⟩
  case inr =>
    rcases runFinallyBlocks_ends program outside cleaned with ⟨outcome, impossible⟩
    cases impossible
  rw [runFinallyBlocks, run_look_bind] at cleaned
  have length : left.handlers.length - state.handlers.length = named.length := by
    have counted := congrArg List.length installed
    rw [Interp.installed, Interp.installed, List.length_append, List.length_map,
      List.length_map, List.length_map] at counted
    rw [counted, Nat.add_sub_cancel_left]
  have positions : (List.range' state.handlers.length
      (left.handlers.length - state.handlers.length)).reverse =
      (named.zipIdx state.handlers.length).reverse.map Prod.snd := by
    rw [length, List.map_reverse, List.zipIdx_map_snd]
  rw [positions] at cleaned
  have declared : ∀ entry ∈ (named.zipIdx state.handlers.length).reverse,
      Declared program entry.1 := by
    intro entry member
    have mentioned : some entry.1 ∈ named.map some :=
      List.mem_map_of_mem (List.fst_mem_of_mem_zipIdx (List.mem_reverse.1 member))
    rw [names] at mentioned
    rcases List.mem_map.1 mentioned with ⟨expr, -, refers⟩
    exact namedBy_declared refers
  rcases finallyBlocks_cases program outside steady declared
      (fun entry member => stands_above installed entry (List.mem_reverse.1 member)) cleaned with
    ⟨endings, blocks, same⟩
  rw [run_change_bind] at ran
  rcases Prod.mk.inj (Option.some.inj ran) with ⟨rfl, rfl⟩
  exact ⟨named, ended, left, endings, after, ⟨entered, names, installed⟩, blocks, rfl,
    Except.ok.inj same⟩

end Runs

/-! ## The first failure -/

section FirstFailure

variable (program : Program) (outside : Outside World)

/-- What a `with` promises: the handlers it installed are cleaned up once each, the most
recently installed first, over the state the body left, and then they are gone; and the
first failure is the outcome. -/
def CleanedUp (eval : Expr → Eval World Value) (handlers : List Expr) (body : Block)
    (state : Interp World) (result : Except Signal Value) (later : Interp World) : Prop :=
  ∃ named ended left endings after,
    Entered program outside eval handlers body state named ended left ∧
    cleanUp program outside eval (cleanups state.handlers.length named) left =
      some (.ok endings, after) ∧
    later = { after with handlers := after.handlers.take state.handlers.length } ∧
    result = firstToFail ended endings

/-- No `finally` block that ends early hides what ended before it. -/
def NothingHidden (eval : Expr → Eval World Value) (handlers : List Expr) (body : Block)
    (state : Interp World) : Prop :=
  ∃ named ended left endings after,
    Entered program outside eval handlers body state named ended left ∧
    cleanUp program outside eval (cleanups state.handlers.length named) left =
      some (.ok endings, after) ∧
    HidesNothing ended endings

variable {program outside} {eval : Expr → Eval World Value} {handlers : List Expr}
  {body : Block} {state left other : Interp World} {named others : List Named}
  {ended ending : Except Signal Value}

/-- There is one way to enter a `with`. -/
theorem Entered.unique (entered : Entered program outside eval handlers body state named
      ended left)
    (again : Entered program outside eval handlers body state others ending other) :
    others = named ∧ ending = ended ∧ other = left := by
  rcases Prod.mk.inj (Option.some.inj (again.ran.symm.trans entered.ran)) with ⟨rfl, rfl⟩
  have installed := again.installed.symm.trans entered.installed
  have length : others.length = named.length := by
    have counted := congrArg List.length (List.append_cancel_left installed)
    rw [List.length_map, List.length_map] at counted
    exact counted
  have names := again.names
  rw [length, ← entered.names] at names
  exact ⟨List.map_injective_iff.2 (Option.some_injective _) names, rfl, rfl⟩

end FirstFailure

/-! ### Two handlers whose `finally` blocks both fail -/

namespace Abandoning

/-- A word of the program, by where it starts. -/
def word (name : String) (start : Nat) : Ident := ⟨name, ⟨start, start + 1⟩⟩

/-- An operation that does nothing, of the handler written at a place. -/
def noop (start : Nat) : FnDecl :=
  ⟨⟨word "noop" start, []⟩, ⟨[], []⟩, .mk [] none ⟨start + 2, start + 4⟩⟩

/-- `handler … implements Flag { fn noop() -> () {} finally { abandon } }` -/
def handler (name : String) (start : Nat) : HandlerDecl :=
  ⟨word name start, word "Flag" (start + 2), [], [noop (start + 4)],
    some (.mk [.abandon ⟨start + 10, start + 17⟩] none ⟨start + 8, start + 19⟩)⟩

/-- `effect Flag { fn noop() -> () }`, the handlers `First` and `Second` of it, and where
the two are named in a `with`. -/
def resolutions : Resolutions where
  definition := fun definition =>
    match definition with
    | 0 => ⟨.effect, "Flag", none⟩
    | 1 => ⟨.effectOp, "noop", some 0⟩
    | 2 => ⟨.handler, "First", none⟩
    | _ => ⟨.handler, "Second", none⟩
  resolution := fun span =>
    match span.start with
    | 22 => some 0
    | 42 => some 0
    | 60 => some 2
    | 62 => some 3
    | _ => none
  builtin := fun _ => none
  imports := fun _ => none
  importModule := fun _ => none

def code : Code where
  path := "a"
  file := 0
  resolutions := resolutions
  functions := []
  handlerDecls := [(2, handler "First" 20), (3, handler "Second" 40)]
  refinements := fun _ => none
  subjects := fun _ => none
  guards := fun _ => none
  rows := fun _ => none
  operators := fun _ => none
  stateNames := fun _ => none
  handlersDistinct := by decide

def program : Program := ⟨[code], none⟩

def outside : Outside Unit where
  root := none
  reach := ⟨∅⟩
  perform := fun _ _ _ _ world => (.ok .unit, world)
  quoted := id
  lowercased := id

/-- Where a `test` block starts. -/
def start : Interp Unit := ⟨0, [[]], [], 0, [], [], [], [], [], 0, ()⟩

/-- `with First, Second { }` -/
def handlers : List Expr := [.ident (word "First" 60), .ident (word "Second" 62)]

def body : Block := .mk [] none ⟨64, 66⟩

/-- What abandoning at a place fails with. -/
def abandoned (start : Nat) : Diagnostic :=
  (Diagnostic.error Codes.ABANDONED 0 ⟨start, start + 7⟩
    "this computation was abandoned by its handler").withPrimaryLabel "abandoned here"

/-- What the first of the two is installed as. -/
def first : Named := ⟨2, 0, ("a", "Flag"), (handler "First" 20).finallyBlock⟩

/-- What the second of the two is installed as. -/
def second : Named := ⟨3, 0, ("a", "Flag"), (handler "Second" 40).finallyBlock⟩

/-- The run with both installed. -/
def installed : Interp Unit := start.above [first.instance, second.instance]

end Abandoning

/-- A `with` does what it promises exactly where nothing is hidden. -/
theorem finally_never_hides (program : Program) (outside : Outside World) (limit : Nat)
    (handlers : List Expr) (body : Block) (span : Span) (state later : Interp World)
    (result : Except Signal Value)
    (ran : evalInner program outside (evaluate program outside limit)
      (.with handlers body span) state = some (result, later)) :
    CleanedUp program outside (evaluate program outside limit) handlers body state result
        later ↔
      NothingHidden program outside (evaluate program outside limit) handlers body state := by
  rcases evalWith_cases program outside (evaluate_steady program outside limit) ran with
    ⟨named, ended, left, endings, after, entered, cleaned, gone, chosen⟩
  constructor
  · rintro ⟨others, ending, other, found, rest, again, cleanedAgain, -, promised⟩
    rcases entered.unique again with ⟨rfl, rfl, rfl⟩
    have same := Prod.mk.inj (Option.some.inj (cleanedAgain.symm.trans cleaned))
    rw [Except.ok.inj same.1] at promised
    exact ⟨_, _, _, _, _, entered, cleaned,
      (foldl_replaced_eq_iff _ _).1 (chosen.symm.trans promised)⟩
  · rintro ⟨others, ending, other, found, rest, again, cleanedAgain, hidesNothing⟩
    rcases entered.unique again with ⟨rfl, rfl, rfl⟩
    have same := Prod.mk.inj (Option.some.inj (cleanedAgain.symm.trans cleaned))
    rw [Except.ok.inj same.1] at hidesNothing
    exact ⟨_, _, _, _, _, entered, cleaned, gone,
      chosen.trans ((foldl_replaced_eq_iff _ _).2 hidesNothing)⟩

open Abandoning in
theorem finally_never_hides_alone :
    CleanedUp Abandoning.program Abandoning.outside
      (evaluate Abandoning.program Abandoning.outside 0) [.ident (word "First" 60)] body start
      (.error (.fail (abandoned 30))) start :=
  (finally_never_hides Abandoning.program Abandoning.outside 0 [.ident (word "First" 60)] body
      ⟨58, 66⟩ start start _ rfl).2
    ⟨[first], .ok .unit, _, [.error (.fail (abandoned 30))], _, ⟨rfl, rfl, rfl⟩, rfl,
      Or.inr (Or.inl rfl)⟩

open Abandoning in
/-- `First` is cleaned up after `Second`, and its failure is what is left of the two. -/
theorem finally_hides :
    evalInner Abandoning.program Abandoning.outside
        (evaluate Abandoning.program Abandoning.outside 0) (.with handlers body ⟨58, 66⟩) start =
      some (.error (.fail (abandoned 30)), start) ∧
    ¬ CleanedUp Abandoning.program Abandoning.outside
        (evaluate Abandoning.program Abandoning.outside 0) handlers body start
        (.error (.fail (abandoned 30))) start := by
  refine ⟨rfl, ?_⟩
  rintro ⟨named, ended, left, endings, after, entered, cleaned, -, promised⟩
  have known : Entered Abandoning.program Abandoning.outside
      (evaluate Abandoning.program Abandoning.outside 0) handlers body start [first, second]
      (.ok .unit) installed := ⟨rfl, rfl, rfl⟩
  rcases known.unique entered with ⟨rfl, rfl, rfl⟩
  have both : cleanUp Abandoning.program Abandoning.outside
      (evaluate Abandoning.program Abandoning.outside 0)
      (cleanups start.handlers.length [first, second]) installed =
      some (.ok [.error (.fail (abandoned 50)), .error (.fail (abandoned 30))],
        installed) := rfl
  have same := Prod.mk.inj (Option.some.inj (cleaned.symm.trans both))
  rw [Except.ok.inj same.1] at promised
  have place : (30 : Nat) = 50 :=
    congrArg (fun diagnostic : Diagnostic => diagnostic.primary.span.start)
      (Signal.fail.inj (Except.error.inj promised))
  exact absurd place (by decide)

end Deed.Eval
