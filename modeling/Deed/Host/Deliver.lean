import Deed.Host.Grant

/-!
# What a host answers is what the interpreter answers

A call whose arguments are what the operation takes runs the interpreter's operation on
the capability and the strings that they stand for, and writes the value that this
gives into the module's memory.  Any other call leaves the host as it was.
-/

namespace Deed.Host

open Deed.Wasm Deed.Rt
open Deed.Interp (Operation performIo)

variable {World α β : Type} {state after : State World} {arguments : List Value}

/-! ## Running a computation of the host -/

/-- How a computation ends, and the host after it. -/
def HostM.ran (computation : HostM World α) (state : State World) :
    Except Ended α × State World :=
  (ExceptT.run computation).run state

@[simp]
theorem ran_pure (value : α) : HostM.ran (pure value) state = (.ok value, state) := rfl

@[simp]
theorem ran_throw (ended : Ended) :
    HostM.ran (throw ended : HostM World α) state = (.error ended, state) := rfl

@[simp]
theorem ran_get : HostM.ran (get : HostM World (State World)) state = (.ok state, state) := rfl

@[simp]
theorem ran_set : HostM.ran (set after : HostM World PUnit) state = (.ok ⟨⟩, after) := rfl

@[simp]
theorem ran_modify (change : State World → State World) :
    HostM.ran (modify change : HostM World PUnit) state = (.ok ⟨⟩, change state) := rfl

theorem ran_bind (first : HostM World α) (next : α → HostM World β) :
    HostM.ran (first >>= next) state =
      match HostM.ran first state with
      | (.ok value, after) => HostM.ran (next value) after
      | (.error ended, after) => (.error ended, after) := by
  unfold HostM.ran
  rcases ran : (ExceptT.run first).run state with ⟨_ | value, after⟩
  · rw [ExceptT.run_bind, StateT.run_bind, ran]
    rfl
  · rw [ExceptT.run_bind, StateT.run_bind, ran]
    rfl

theorem ran_bind_ok {first : HostM World α} {next : α → HostM World β} {value : α}
    (done : HostM.ran first state = (.ok value, after)) :
    HostM.ran (first >>= next) state = HostM.ran (next value) after := by
  rw [ran_bind, done]

theorem ran_bind_error {first : HostM World α} {next : α → HostM World β} {ended : Ended}
    (done : HostM.ran first state = (.error ended, after)) :
    HostM.ran (first >>= next) state = (.error ended, after) := by
  rw [ran_bind, done]

/-! ## Capabilities and values -/

/-- The capability of the interpreter's that something in the table is. -/
def Held.capability : Held → Interp.Capability
  | .system => .system
  | .console => .console
  | .clock => .clock
  | .dir path => .dir path
  | .net reach => .net reach

/-- What a capability of the interpreter's is in the table. -/
def heldOf : Interp.Capability → Held
  | .system => .system
  | .console => .console
  | .clock => .clock
  | .dir path => .dir path
  | .net reach => .net reach

@[simp]
theorem heldOf_capability (held : Held) : heldOf held.capability = held := by
  cases held <;> rfl

/-- The interpreter of the same grants in the same state. -/
def asInterp (grants : Grants) (state : State World) : Interp World where
  world := state.world
  root := grants.files
  reach := grants.network.getD Reach.none
  arguments := grants.arguments.getD []
  environment := grants.environment.getD []
  input := state.input
  readLines := state.readLines
  ticks := state.ticks
  output := state.output

/-- The host after what the interpreter did. -/
def resumed (state : State World) (later : Interp World) : State World :=
  { state with
    world := later.world
    readLines := later.readLines
    ticks := later.ticks
    output := later.output }

/-- The strings in a list of values. -/
def textsOf (elements : List Interp.Value) : List Text :=
  elements.filterMap fun element =>
    match element with
    | .str text => some text
    | _ => none

@[simp]
theorem textsOf_map (texts : List Text) : textsOf (texts.map .str) = texts := by
  rw [textsOf, List.filterMap_map]
  exact List.filterMap_some

/-- A value of the interpreter's, written out as one word. -/
def placed : Interp.Value → HostM World Value
  | .unit => pure nothing
  | .int value => pure (.i64 (Int64.ofInt value))
  | .bool value => pure (.i64 (if value then 1 else 0))
  | .str text => string text
  | .list elements => strings (textsOf elements)
  | .capability held => handOut (heldOf held)
  | .result ok value => do
      let word ← placed value
      written fun memory =>
        writeAggregate memory (some (if ok then Runtime.OK else Runtime.ERR)) [word]

/-- A value of the interpreter's as the answer to a call. -/
def reply : Interp.Value → HostM World (Option Value)
  | .unit => pure none
  | value => do
      let word ← placed value
      pure (some word)

theorem reply_result (ok : Bool) (value : Interp.Value) :
    (reply (.result ok value) : HostM World (Option Value)) = placed value >>= answer ok := by
  show (placed (.result ok value) >>= fun word => pure (some word)) = _
  rw [placed, bind_assoc]
  rfl

theorem failed_eq (why : Text) :
    (failed why : HostM World (Option Value)) = reply (.err (.str why)) :=
  (reply_result false (.str why)).symm

theorem answer_nothing :
    (answer true nothing : HostM World (Option Value)) = reply (.ok .unit) := by
  rw [Interp.Value.ok, reply_result, placed, pure_bind]

theorem asked_eq (outcome : Except Text Text) :
    (asked outcome : HostM World (Option Value)) = reply (Interp.asked outcome) := by
  cases outcome with
  | ok text => exact (reply_result true (.str text)).symm
  | error why => exact failed_eq why

/-- The host's way to end as the interpreter's operation ended. -/
def delivered (state : State World) :
    Except Interp.Failure (Interp.Value × Interp World) →
      Except Ended (Option Value) × State World
  | .ok (value, later) => HostM.ran (reply value) (resumed state later)
  | .error _ => (.error .panicked, state)

/-! ## Arguments -/

/-- The kind of capability that an operation acts on. -/
def takes : Operation → Held
  | .write | .line => .console
  | .now | .epoch => .clock
  | .args | .env => .system
  | .list | .open | .read | .save | .remove | .make => .dir []
  | .reach | .fetch | .send => .net Reach.none

/-- How many strings an operation takes after the capability. -/
def reads : Operation → Nat
  | .line | .now | .epoch | .args | .list => 0
  | .write | .env | .open | .read | .remove | .make | .reach | .fetch => 1
  | .save | .send => 2

/-- The arguments are a handle of the right kind and then strings. -/
structure Passes (state : State World) (operation : Operation) (arguments : List Value)
    (held : Held) (texts : List Text) : Prop where
  stands : standsFor state.held arguments[0]? = some held
  kind : held.is (takes operation) = true
  count : texts.length = reads operation
  read : ∀ position (below : position < texts.length),
    text state.memory arguments[position + 1]? = .ok (some texts[position])

variable {platform : Platform World} {display : Interp.Value → Text} {grants : Grants}
  {operation : Operation} {held : Held} {texts : List Text} {name : Text}

theorem ran_require {what : Held} (stands : standsFor state.held arguments[0]? = some held)
    (kind : held.is what = true) :
    HostM.ran (require arguments what name) state = (.ok (), state) := by
  have any : (standsFor state.held arguments[0]?).any (·.is what) = true := by
    rw [stands]
    exact kind
  rw [require, ran_bind, ran_get]
  dsimp only
  rw [if_pos any]
  rfl

theorem ran_dir {root : Path} (stands : standsFor state.held arguments[0]? = some (.dir root)) :
    HostM.ran (dir arguments name) state = (.ok root, state) := by
  rw [dir, ran_bind, ran_get]
  dsimp only
  rw [stands]
  rfl

theorem ran_net {reach : Reach}
    (stands : standsFor state.held arguments[0]? = some (.net reach)) :
    HostM.ran (net arguments name) state = (.ok reach, state) := by
  rw [net, ran_bind, ran_get]
  dsimp only
  rw [stands]
  rfl

theorem ran_textOf {position : Nat} {found : Text}
    (reads : text state.memory arguments[position]? = .ok (some found)) :
    HostM.ran (textOf arguments position name) state = (.ok found, state) := by
  rw [textOf, ran_bind, ran_get]
  dsimp only
  rw [reads]
  rfl

/-! ## One operation at a time -/

section Operations

variable {root : Path} {reach : Reach} {url body wanted contents : Text}

theorem ran_write (stands : standsFor state.held arguments[0]? = some .console)
    (first : text state.memory arguments[1]? = .ok (some name)) :
    HostM.ran (write arguments) state =
      (.ok none, { state with output := state.output ++ [name] }) := by
  rw [write, ran_bind_ok (ran_require stands rfl), ran_bind_ok (ran_textOf first)]
  rfl

theorem ran_line (stands : standsFor state.held arguments[0]? = some .console) :
    HostM.ran (line arguments) state =
      delivered state (performIo platform display .line [.capability .console]
        (asInterp grants state)) := by
  rw [line, ran_bind_ok (ran_require stands rfl), ran_bind_ok ran_get]
  simp only [performIo, List.head?_cons, asInterp]
  cases state.input[state.readLines]? with
  | some text =>
      dsimp only
      rw [ran_bind_ok ran_set]
      exact congrArg (HostM.ran · _) (reply_result true (.str text)).symm
  | none => exact congrArg (HostM.ran · _) (failed_eq _)

theorem ran_now (stands : standsFor state.held arguments[0]? = some .clock) :
    HostM.ran (now arguments) state =
      delivered state (performIo platform display .now [.capability .clock]
        (asInterp grants state)) := by
  rw [now, ran_bind_ok (ran_require stands rfl), ran_bind_ok ran_get]
  by_cases fits : state.ticks + 1 < 2 ^ 63
  · have performed : performIo platform display .now [.capability .clock]
        (asInterp grants state) = .ok (.int (state.ticks + 1), _) := if_pos fits
    rw [if_pos fits, ran_bind_ok ran_set, performed]
    rfl
  · have performed : performIo platform display .now [.capability .clock]
        (asInterp grants state) = .error .overflow := if_neg fits
    rw [if_neg fits, performed]
    rfl

theorem ran_epoch (stands : standsFor state.held arguments[0]? = some .clock) :
    HostM.ran (epoch platform arguments) state =
      delivered state (performIo platform display .epoch [.capability .clock]
        (asInterp grants state)) := by
  have performed : performIo platform display .epoch [.capability .clock]
      (asInterp grants state) = .ok (.int (platform.sinceEpoch state.world).1.toInt, _) := rfl
  rw [epoch, ran_bind_ok (ran_require stands rfl), ran_bind_ok ran_get, performed, delivered,
    reply, placed, Int64.ofInt_toInt]
  · rfl
  · simp

theorem ran_args {granted : List Text}
    (stands : standsFor state.held arguments[0]? = some .system) :
    HostM.ran (args granted arguments) state =
      HostM.ran (reply (.list (granted.map .str))) state := by
  rw [args, ran_bind_ok (ran_require stands rfl)]
  show _ = HostM.ran (placed (.list (granted.map .str)) >>= fun word => pure (some word)) state
  rw [placed, textsOf_map]

theorem ran_env (stands : standsFor state.held arguments[0]? = some .system)
    (first : text state.memory arguments[1]? = .ok (some wanted)) :
    HostM.ran (env (grants.environment.getD []) arguments) state =
      delivered state (performIo platform display .env [.capability .system, .str wanted]
        (asInterp grants state)) := by
  rw [env, ran_bind_ok (ran_require stands rfl), ran_bind_ok (ran_textOf first)]
  simp only [performIo, List.head?_cons, asInterp, List.getElem?_cons_succ,
    List.getElem?_cons_zero, Interp.ioName]
  show _ = delivered state (_ : Except _ _)
  simp only [bind, Except.bind]
  cases (grants.environment.getD []).find? fun entry => decide (entry.1 = wanted) with
  | some entry => exact congrArg (HostM.ran · _) (reply_result true (.str entry.2)).symm
  | none => exact congrArg (HostM.ran · _) (failed_eq _)

theorem ran_list (stands : standsFor state.held arguments[0]? = some (.dir root)) :
    HostM.ran (list platform arguments) state =
      delivered state (performIo platform display .list [.capability (.dir root)]
        (asInterp grants state)) := by
  rw [list, ran_bind_ok (ran_dir stands), ran_bind_ok ran_get]
  simp only [performIo, List.head?_cons, asInterp]
  cases platform.readDir state.world root with
  | ok entries =>
      refine congrArg (HostM.ran · _) (Eq.trans ?_ (reply_result true (.list _)).symm)
      rw [placed, textsOf_map]
  | error error => exact congrArg (HostM.ran · _) (failed_eq _)

theorem ran_open (stands : standsFor state.held arguments[0]? = some (.dir root))
    (first : text state.memory arguments[1]? = .ok (some name)) :
    HostM.ran (openDir platform arguments) state =
      HostM.ran (reply (Interp.performOpen platform state.world root name)) state := by
  rw [openDir, ran_bind_ok (ran_dir stands), ran_bind_ok (ran_textOf first),
    ran_bind_ok ran_get, Interp.performOpen]
  cases Sandbox.resolve (platform.canonicalize state.world) root name with
  | ok path =>
      dsimp only
      split
      · exact congrArg (HostM.ran · _) (reply_result true (.capability (.dir path))).symm
      · exact congrArg (HostM.ran · _) (failed_eq _)
  | error refused => exact congrArg (HostM.ran · _) (failed_eq _)

theorem ran_read (stands : standsFor state.held arguments[0]? = some (.dir root))
    (first : text state.memory arguments[1]? = .ok (some name)) :
    HostM.ran (read platform arguments) state =
      HostM.ran (reply (Interp.performRead platform state.world root name)) state := by
  rw [read, ran_bind_ok (ran_dir stands), ran_bind_ok (ran_textOf first),
    ran_bind_ok ran_get, Interp.performRead]
  cases Sandbox.resolve (platform.canonicalize state.world) root name with
  | ok path =>
      dsimp only
      cases platform.readToString state.world path with
      | ok contents => exact congrArg (HostM.ran · _) (reply_result true (.str contents)).symm
      | error error => exact congrArg (HostM.ran · _) (failed_eq _)
  | error refused => exact congrArg (HostM.ran · _) (failed_eq _)

theorem ran_save (stands : standsFor state.held arguments[0]? = some (.dir root))
    (first : text state.memory arguments[1]? = .ok (some name))
    (second : text state.memory arguments[2]? = .ok (some contents)) :
    HostM.ran (save platform arguments) state =
      HostM.ran (reply (Interp.performSave platform state.world root name contents).1)
        { state with
          world := (Interp.performSave platform state.world root name contents).2 } := by
  rw [save, ran_bind_ok (ran_dir stands), ran_bind_ok (ran_textOf first),
    ran_bind_ok (ran_textOf second), ran_bind_ok ran_get, Interp.performSave]
  cases Sandbox.resolveNew (platform.canonicalize state.world) root name with
  | ok path =>
      dsimp only
      rw [ran_bind_ok ran_set]
      rcases platform.write state.world path contents with ⟨_ | _, world⟩
      · exact congrArg (HostM.ran · _) (failed_eq _)
      · exact congrArg (HostM.ran · _) answer_nothing
  | error refused => exact congrArg (HostM.ran · _) (failed_eq _)

theorem ran_remove (stands : standsFor state.held arguments[0]? = some (.dir root))
    (first : text state.memory arguments[1]? = .ok (some name)) :
    HostM.ran (remove platform arguments) state =
      HostM.ran (reply (Interp.performRemove platform state.world root name).1)
        { state with world := (Interp.performRemove platform state.world root name).2 } := by
  rw [remove, ran_bind_ok (ran_dir stands), ran_bind_ok (ran_textOf first),
    ran_bind_ok ran_get, Interp.performRemove]
  cases Sandbox.resolve (platform.canonicalize state.world) root name with
  | ok path =>
      dsimp only
      by_cases isDir : platform.isDir state.world path = true
      · rw [if_pos isDir, if_pos isDir]
        exact congrArg (HostM.ran · _) (failed_eq _)
      · rw [if_neg isDir, if_neg isDir, ran_bind_ok ran_set]
        rcases platform.removeFile state.world path with ⟨_ | _, world⟩
        · exact congrArg (HostM.ran · _) (failed_eq _)
        · exact congrArg (HostM.ran · _) answer_nothing
  | error refused => exact congrArg (HostM.ran · _) (failed_eq _)

theorem ran_make (stands : standsFor state.held arguments[0]? = some (.dir root))
    (first : text state.memory arguments[1]? = .ok (some name)) :
    HostM.ran (make platform arguments) state =
      HostM.ran (reply (Interp.performMake platform state.world root name).1)
        { state with world := (Interp.performMake platform state.world root name).2 } := by
  rw [make, ran_bind_ok (ran_dir stands), ran_bind_ok (ran_textOf first),
    ran_bind_ok ran_get, Interp.performMake]
  cases Sandbox.resolveNew (platform.canonicalize state.world) root name with
  | ok path =>
      dsimp only
      by_cases there : platform.pathExists state.world path = true
      · rw [if_pos there, if_pos there]
        exact congrArg (HostM.ran · _) (failed_eq _)
      · rw [if_neg there, if_neg there, ran_bind_ok ran_set]
        rcases platform.createDir state.world path with ⟨_ | _, world⟩
        · exact congrArg (HostM.ran · _) (failed_eq _)
        · dsimp only
          cases Sandbox.root (platform.canonicalize world) path with
          | ok made =>
              exact congrArg (HostM.ran · _) (reply_result true (.capability (.dir made))).symm
          | error refused => exact congrArg (HostM.ran · _) (failed_eq _)
  | error refused => exact congrArg (HostM.ran · _) (failed_eq _)

theorem ran_reach (stands : standsFor state.held arguments[0]? = some (.net reach))
    (first : text state.memory arguments[1]? = .ok (some name)) :
    HostM.ran (Host.reach arguments) state =
      delivered state (performIo platform display .reach [.capability (.net reach), .str name]
        (asInterp grants state)) := by
  rw [Host.reach, ran_bind_ok (ran_net stands), ran_bind_ok (ran_textOf first)]
  simp only [performIo, List.head?_cons, asInterp, List.getElem?_cons_succ,
    List.getElem?_cons_zero, Interp.ioName, bind, Except.bind]
  cases reach.narrow name with
  | ok narrowed =>
      exact congrArg (HostM.ran · _) (reply_result true (.capability (.net narrowed))).symm
  | error refused => exact congrArg (HostM.ran · _) (failed_eq _)

theorem ran_fetch (stands : standsFor state.held arguments[0]? = some (.net reach))
    (first : text state.memory arguments[1]? = .ok (some url)) :
    HostM.ran (fetch platform arguments) state =
      HostM.ran (reply (Interp.asked
          (platform.overTheNetwork state.world reach url "GET".toList none).1))
        { state with
          world := (platform.overTheNetwork state.world reach url "GET".toList none).2 } := by
  rw [fetch, ran_bind_ok (ran_net stands), ran_bind_ok (ran_textOf first), ran_bind_ok ran_get]
  dsimp only
  rw [ran_bind_ok ran_set, asked_eq]

theorem ran_send (stands : standsFor state.held arguments[0]? = some (.net reach))
    (first : text state.memory arguments[1]? = .ok (some url))
    (second : text state.memory arguments[2]? = .ok (some body)) :
    HostM.ran (send platform arguments) state =
      HostM.ran (reply (Interp.asked
          (platform.overTheNetwork state.world reach url "POST".toList (some body)).1))
        { state with
          world :=
            (platform.overTheNetwork state.world reach url "POST".toList (some body)).2 } := by
  rw [send, ran_bind_ok (ran_net stands), ran_bind_ok (ran_textOf first),
    ran_bind_ok (ran_textOf second), ran_bind_ok ran_get]
  dsimp only
  rw [ran_bind_ok ran_set, asked_eq]

end Operations

/-! ## Every operation -/

/-- A call that passes what an operation takes answers what the interpreter answers. -/
theorem call_io (display : Interp.Value → Text)
    (passes : Passes state operation arguments held texts) :
    HostM.ran (grants.call platform (.io operation) arguments) state =
      delivered state (performIo platform display operation
        (.capability held.capability :: texts.map .str) (asInterp grants state)) := by
  rcases passes with ⟨stands, kind, count, reads_⟩
  rcases texts with _ | ⟨first, _ | ⟨second, _ | ⟨third, rest⟩⟩⟩
  · cases operation <;> cases held <;>
      simp only [takes, Held.is, Bool.false_eq_true, reads, List.length_nil, OfNat.zero_ne_ofNat,
        zero_ne_one] at kind count
    · exact ran_line stands
    · exact ran_now stands
    · exact ran_epoch stands
    · exact ran_args stands
    · exact ran_list stands
  · have read : text state.memory arguments[1]? = .ok (some first) := reads_ 0 Nat.one_pos
    cases operation <;> cases held <;>
      simp only [takes, Held.is, Bool.false_eq_true, reads, List.length_singleton, one_ne_zero,
        OfNat.one_ne_ofNat] at kind count
    · exact ran_write stands read
    · exact ran_env stands read
    · exact ran_open stands read
    · exact ran_read stands read
    · exact ran_remove stands read
    · exact ran_make stands read
    · exact ran_reach stands read
    · exact ran_fetch stands read
  · have read : text state.memory arguments[1]? = .ok (some first) := reads_ 0 Nat.two_pos
    have read_ : text state.memory arguments[2]? = .ok (some second) := reads_ 1 Nat.one_lt_two
    cases operation <;> cases held <;>
      simp only [takes, Held.is, Bool.false_eq_true, reads, List.length_cons, List.length_nil,
        zero_add, Nat.reduceAdd, OfNat.ofNat_ne_zero, OfNat.ofNat_ne_one] at kind count
    · exact ran_save stands read read_
    · exact ran_send stands read read_
  · exact absurd count (by cases operation <;> simp [reads])

/-- What a field of `System` narrows to. -/
def narrowsTo (grants : Grants) : Field → Held
  | .console => .console
  | .clock => .clock
  | .files => .dir (grants.files.getD [])
  | .net => .net (grants.network.getD Reach.none)

/-- A narrowing answers the handle of what the field narrows to, and changes nothing. -/
theorem ran_narrow {field : Field} (stands : standsFor state.held arguments[0]? = some .system) :
    HostM.ran (grants.call platform (.sys field) arguments) state =
      (.ok (handle state.held (narrowsTo grants field)), state) := by
  cases field <;> exact (ran_bind_ok (ran_require stands rfl)).trans rfl

/-- On what an operation takes, the interpreter's ends with a value, unless the clock is at
its end. -/
theorem performIo_ends {interp : Interp World} (kind : held.is (takes operation) = true)
    (count : texts.length = reads operation) :
    (∃ value later, performIo platform display operation
      (.capability held.capability :: texts.map .str) interp = .ok (value, later)) ∨
    (operation = .now ∧ ¬ interp.ticks + 1 < 2 ^ 63 ∧ performIo platform display operation
      (.capability held.capability :: texts.map .str) interp = .error .overflow) := by
  rcases texts with _ | ⟨first, _ | ⟨second, _ | ⟨third, rest⟩⟩⟩
  · cases operation <;> cases held <;>
      simp only [takes, Held.is, Bool.false_eq_true, reads, List.length_nil, OfNat.zero_ne_ofNat,
        zero_ne_one] at kind count
    case line.console =>
      left
      simp only [performIo, List.head?_cons, Held.capability]
      split <;> exact ⟨_, _, rfl⟩
    case now.clock =>
      by_cases clock : interp.ticks + 1 < 2 ^ 63
      · exact Or.inl ⟨_, _, if_pos clock⟩
      · exact Or.inr ⟨rfl, clock, if_neg clock⟩
    case epoch.clock => exact Or.inl ⟨_, _, rfl⟩
    case args.system => exact Or.inl ⟨_, _, rfl⟩
    case list.dir =>
      left
      simp only [performIo, List.head?_cons, Held.capability]
      split <;> exact ⟨_, _, rfl⟩
  · cases operation <;> cases held <;>
      simp only [takes, Held.is, Bool.false_eq_true, reads, List.length_singleton, one_ne_zero,
        OfNat.one_ne_ofNat] at kind count
    case env.system =>
      left
      simp only [performIo, List.head?_cons, Held.capability, List.map_cons, List.map_nil,
        List.getElem?_cons_succ, List.getElem?_cons_zero, Interp.ioName, bind, Except.bind]
      split <;> exact ⟨_, _, rfl⟩
    case reach.net reach =>
      left
      simp only [performIo, List.head?_cons, Held.capability, List.map_cons, List.map_nil,
        List.getElem?_cons_succ, List.getElem?_cons_zero, Interp.ioName, bind, Except.bind]
      split <;> exact ⟨_, _, rfl⟩
    all_goals exact Or.inl ⟨_, _, rfl⟩
  · cases operation <;> cases held <;>
      simp only [takes, Held.is, Bool.false_eq_true, reads, List.length_cons, List.length_nil,
        zero_add, Nat.reduceAdd, OfNat.ofNat_ne_zero, OfNat.ofNat_ne_one] at kind count
    all_goals exact Or.inl ⟨_, _, rfl⟩
  · exact absurd count (by cases operation <;> simp [reads])

theorem ran_require_wrong {what : Held} (wrong : ∀ held,
      standsFor state.held arguments[0]? = some held → held.is what = false) :
    HostM.ran (require arguments what name) state = (.error (refusal what name), state) := by
  have none : ¬(standsFor state.held arguments[0]?).any (·.is what) = true := by
    rw [Option.any_eq_true]
    rintro ⟨held, stands, kind⟩
    rw [wrong held stands] at kind
    exact absurd kind Bool.false_ne_true
  rw [require, ran_bind_ok ran_get, if_neg none, ran_throw]

theorem ran_dir_wrong (wrong : ∀ held,
      standsFor state.held arguments[0]? = some held → held.is (.dir []) = false) :
    HostM.ran (dir arguments name) state = (.error (refusal (.dir []) name), state) := by
  rw [dir, ran_bind_ok ran_get]
  split
  · rename_i stands
    exact absurd (wrong _ stands) (by simp [Held.is])
  · rfl

theorem ran_net_wrong (wrong : ∀ held,
      standsFor state.held arguments[0]? = some held → held.is (.net Reach.none) = false) :
    HostM.ran (net arguments name) state = (.error (refusal (.net Reach.none) name), state) := by
  rw [net, ran_bind_ok ran_get]
  split
  · rename_i stands
    exact absurd (wrong _ stands) (by simp [Held.is])
  · rfl

/-- Without a capability of the kind that an operation acts on, the host turns the call
down. -/
theorem call_wrong (wrong : ∀ held, standsFor state.held arguments[0]? = some held →
      held.is (takes operation) = false) :
    ∃ why, HostM.ran (grants.call platform (.io operation) arguments) state =
      (.error (.refused why), state) := by
  cases operation with
  | write | line | now | epoch | args | env =>
      exact ⟨_, ran_bind_error (ran_require_wrong wrong)⟩
  | list | «open» | read | save | remove | make =>
      exact ⟨_, ran_bind_error (ran_dir_wrong wrong)⟩
  | reach | fetch | send => exact ⟨_, ran_bind_error (ran_net_wrong wrong)⟩

theorem text_error {argument : Option Value} {memory : Memory} {ended : Ended}
    (stops : text memory argument = .error ended) : ended = .panicked := by
  unfold text at stops
  split at stops
  · exact absurd stops (by simp)
  · split at stops
    · exact absurd stops (by simp)
    · dsimp only at stops
      split at stops
      · exact absurd stops (by simp)
      · split at stops
        · exact (Except.error.inj stops).symm
        · split at stops
          · exact absurd stops (by simp)
          · exact absurd stops (by simp)

/-- How a call ends whose argument at a position is no string: turned down, unless reading
it stopped the host. -/
def Unread (state : State World) (arguments : List Value) (position : Nat) (ended : Ended) :
    Prop :=
  (∃ why, ended = .refused why) ∨
    ended = .panicked ∧ text state.memory arguments[position]? = .error .panicked

theorem ran_textOf_unread {position : Nat}
    (unread : ∀ found, text state.memory arguments[position]? ≠ .ok (some found)) :
    ∃ ended, HostM.ran (textOf arguments position name) state = (.error ended, state) ∧
      Unread state arguments position ended := by
  rw [textOf, ran_bind_ok ran_get]
  cases found : text state.memory arguments[position]? with
  | error ended =>
      have panicked := text_error found
      exact ⟨ended, rfl, Or.inr ⟨panicked, by rw [found, panicked]⟩⟩
  | ok found_ =>
      cases found_ with
      | none => exact ⟨_, rfl, Or.inl ⟨_, rfl⟩⟩
      | some text => exact absurd found (unread text)

/-- After the capability, a call reads its first string. -/
theorem call_first (stands : standsFor state.held arguments[0]? = some held)
    (kind : held.is (takes operation) = true) (first : 0 < reads operation) :
    ∃ name next, HostM.ran (grants.call platform (.io operation) arguments) state =
      HostM.ran (textOf arguments 1 name >>= next) state := by
  cases operation <;> cases held <;>
    simp only [takes, Held.is, Bool.false_eq_true, reads, lt_self_iff_false] at kind first
  case write.console => exact ⟨_, _, ran_bind_ok (ran_require stands rfl)⟩
  case env.system => exact ⟨_, _, ran_bind_ok (ran_require stands rfl)⟩
  case open.dir => exact ⟨_, _, ran_bind_ok (ran_dir stands)⟩
  case read.dir => exact ⟨_, _, ran_bind_ok (ran_dir stands)⟩
  case save.dir => exact ⟨_, _, ran_bind_ok (ran_dir stands)⟩
  case remove.dir => exact ⟨_, _, ran_bind_ok (ran_dir stands)⟩
  case make.dir => exact ⟨_, _, ran_bind_ok (ran_dir stands)⟩
  case reach.net => exact ⟨_, _, ran_bind_ok (ran_net stands)⟩
  case fetch.net => exact ⟨_, _, ran_bind_ok (ran_net stands)⟩
  case send.net => exact ⟨_, _, ran_bind_ok (ran_net stands)⟩

/-- After its first string, a call that reads two reads the second. -/
theorem call_second (stands : standsFor state.held arguments[0]? = some held)
    (kind : held.is (takes operation) = true) (second : 1 < reads operation)
    (first : text state.memory arguments[1]? = .ok (some name)) :
    ∃ name next, HostM.ran (grants.call platform (.io operation) arguments) state =
      HostM.ran (textOf arguments 2 name >>= next) state := by
  cases operation <;> cases held <;>
    simp only [takes, Held.is, Bool.false_eq_true, reads, lt_self_iff_false, Nat.not_lt_zero]
      at kind second
  case save.dir =>
    exact ⟨_, _, (ran_bind_ok (ran_dir stands)).trans (ran_bind_ok (ran_textOf first))⟩
  case send.net =>
    exact ⟨_, _, (ran_bind_ok (ran_net stands)).trans (ran_bind_ok (ran_textOf first))⟩

theorem reads_le (operation : Operation) : reads operation ≤ 2 := by
  cases operation <;> decide

/-- With the right capability, an argument that is no string ends the call. -/
theorem call_unread {position : Nat} (stands : standsFor state.held arguments[0]? = some held)
    (kind : held.is (takes operation) = true) (below : position < reads operation)
    (unread : ∀ found, text state.memory arguments[position + 1]? ≠ .ok (some found)) :
    ∃ ended position, position < reads operation ∧
      HostM.ran (grants.call platform (.io operation) arguments) state = (.error ended, state) ∧
      Unread state arguments (position + 1) ended := by
  by_cases first : ∃ found, text state.memory arguments[1]? = .ok (some found)
  · rcases first with ⟨found, first⟩
    have most := reads_le operation
    have second : position = 1 := by
      rcases position with _ | _ | position
      · exact absurd first (unread found)
      · rfl
      · omega
    subst second
    rcases call_second stands kind below first with ⟨name, next, called⟩
    rcases @ran_textOf_unread _ _ _ name 2 unread with ⟨ended, stopped, unread⟩
    exact ⟨ended, 1, below, called.trans (ran_bind_error stopped), unread⟩
  · have some : 0 < reads operation := Nat.zero_lt_of_lt below
    rcases call_first stands kind some with ⟨name, next, called⟩
    rcases @ran_textOf_unread _ _ _ name 1 (not_exists.mp first) with ⟨ended, stopped, unread⟩
    exact ⟨ended, 0, some, called.trans (ran_bind_error stopped), unread⟩

end Deed.Host
