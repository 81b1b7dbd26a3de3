import Mathlib.Data.List.Basic

/-!
# Scanners

A scanner reads a text from its front.  It makes calls while it reads, and ends with a value
and the text behind what it has read, or with an error.  Scanners are composed as a monad.
The module supplies rules for what a scanner reads of a text that begins in a known way, for
how much it leaves of any text, and for the calls that it makes.
-/

namespace MultiMaster.Foundation

/-- From a text to the calls made, and the value with the rest of the text or the error. -/
def Scanner (Symbol Call Error Value : Type) :=
  List Symbol → List Call × Except Error (Value × List Symbol)

namespace Scanner

variable {Symbol Call Error First Value : Type}

/-- Read with one scanner, and behind what it has read with another. -/
def andThen (first : Scanner Symbol Call Error First)
    (next : First → Scanner Symbol Call Error Value) :
    Scanner Symbol Call Error Value := fun text =>
  match first text with
  | (calls, .error error) => (calls, .error error)
  | (calls, .ok (value, rest)) => (calls ++ (next value rest).1, (next value rest).2)

instance : Monad (Scanner Symbol Call Error) where
  pure value := fun text => ([], .ok (value, text))
  bind := andThen

def call (event : Call) : Scanner Symbol Call Error Unit := fun text => ([event], .ok ((), text))

def fail (error : Error) : Scanner Symbol Call Error Value := fun _ => ([], .error error)

/-- The first symbol; at the end of the text the one that ends it. -/
def peek (ending : Symbol) : Scanner Symbol Call Error Symbol := fun text =>
  ([], .ok (text.headD ending, text))

/-- The text that is left. -/
def remaining : Scanner Symbol Call Error (List Symbol) := fun text => ([], .ok (text, text))

def take : Scanner Symbol Call Error Unit := fun text => ([], .ok ((), text.tail))

/-- Take all symbols up to the first one without a property. -/
def skipWhile (property : Symbol → Bool) : Scanner Symbol Call Error Unit := fun text =>
  ([], .ok ((), text.dropWhile property))

/-- A scanner whose definition needs a bound gets one from the length of its text. -/
def bounded (scanner : Nat → Scanner Symbol Call Error Value) :
    Scanner Symbol Call Error Value := fun text => scanner (text.length + 1) text

variable {scanner : Scanner Symbol Call Error Value} {first : Scanner Symbol Call Error First}
variable {next : First → Scanner Symbol Call Error Value}
variable {text later rest : List Symbol} {calls more : List Call} {value : Value} {step : First}

theorem bind_of_ok (read : first text = (calls, .ok (step, rest))) :
    (first >>= next) text = (calls ++ (next step rest).1, (next step rest).2) := by
  change first.andThen next text = _
  rw [andThen, read]

theorem bind_of_error {error : Error} (read : first text = (calls, .error error)) :
    (first >>= next) text = (calls, .error error) := by
  change first.andThen next text = _
  rw [andThen, read]

theorem peek_bind {ending symbol : Symbol} {next : Symbol → Scanner Symbol Call Error Value} :
    (peek ending >>= next) (symbol :: text) = next symbol (symbol :: text) := rfl

theorem take_bind {symbol : Symbol} {next : Unit → Scanner Symbol Call Error Value} :
    (take >>= next) (symbol :: text) = next () text := rfl

theorem call_bind {event : Call} {next : Unit → Scanner Symbol Call Error Value} :
    (call event >>= next) text = (event :: (next () text).1, (next () text).2) := rfl

/-! ## Texts that begin in a known way -/

/-- Before every rest that may follow, the scanner reads the text with these calls. -/
def Reads (scanner : Scanner Symbol Call Error Value) (text : List Symbol) (calls : List Call)
    (value : Value) (follow : List Symbol → Prop) : Prop :=
  ∀ rest, follow rest → scanner (text ++ rest) = (calls, .ok (value, rest))

variable {follow between : List Symbol → Prop}

theorem Reads.bind (early : Reads first text calls step between)
    (late : Reads (next step) later more value follow)
    (fits : ∀ rest, follow rest → between (later ++ rest)) :
    Reads (first >>= next) (text ++ later) (calls ++ more) value follow := by
  intro rest follows
  rw [List.append_assoc, bind_of_ok (early _ (fits rest follows)), late rest follows]

/-- A first scanner that reads its text before any rest. -/
theorem Reads.always (early : Reads first text calls step fun _ => True)
    (late : Reads (next step) later more value follow) :
    Reads (first >>= next) (text ++ later) (calls ++ more) value follow :=
  early.bind late fun _ _ => trivial

/-- A second scanner that takes nothing. -/
theorem Reads.last (early : Reads first text calls step follow)
    (late : Reads (next step) [] more value follow) :
    Reads (first >>= next) text (calls ++ more) value follow := by
  have both := early.bind late fun _ => id
  rw [List.append_nil] at both
  exact both

theorem reads_pure : Reads (pure value : Scanner Symbol Call Error Value) [] [] value follow :=
  fun _ _ => rfl

theorem reads_call (event : Call) :
    Reads (call event : Scanner Symbol Call Error Unit) [] [event] () follow :=
  fun _ _ => rfl

theorem reads_take (symbol : Symbol) :
    Reads (take : Scanner Symbol Call Error Unit) [symbol] [] () follow :=
  fun _ _ => rfl

theorem Reads.take {symbol : Symbol} {next : Unit → Scanner Symbol Call Error Value}
    (late : Reads (next ()) text calls value follow) :
    Reads (Scanner.take >>= next) (symbol :: text) calls value follow :=
  (reads_take symbol).always late

theorem Reads.call {event : Call} {next : Unit → Scanner Symbol Call Error Value}
    (late : Reads (next ()) text calls value follow) :
    Reads (Scanner.call event >>= next) text (event :: calls) value follow :=
  (reads_call event).always late

/-- Looking at the first symbol takes nothing. -/
theorem Reads.peek {ending symbol : Symbol} {next : Symbol → Scanner Symbol Call Error Value}
    (late : Reads (next symbol) (symbol :: text) calls value follow) :
    Reads (Scanner.peek ending >>= next) (symbol :: text) calls value follow := by
  intro rest follows
  rw [List.cons_append, bind_of_ok rfl]
  exact late rest follows

/-- Looking behind the known text finds what may follow, or the end. -/
theorem Reads.peek_behind {ending : Symbol} {next : Symbol → Scanner Symbol Call Error Value}
    {allowed : Symbol → Prop}
    (late : ∀ symbol, symbol = ending ∨ allowed symbol →
      Reads (next symbol) [] calls value follow)
    (fits : ∀ rest, follow rest → ∀ symbol ∈ rest.head?, allowed symbol) :
    Reads (Scanner.peek ending >>= next) [] calls value follow := by
  intro rest follows
  rw [List.nil_append, bind_of_ok rfl]
  cases rest with
  | nil => exact late ending (.inl rfl) [] follows
  | cons symbol rest =>
      exact late symbol (.inr (fits _ follows symbol rfl)) (symbol :: rest) follows

theorem Reads.remaining {next : List Symbol → Scanner Symbol Call Error Value}
    (late : ∀ start, Reads (next start) text calls value follow) :
    Reads (Scanner.remaining >>= next) text calls value follow := by
  intro rest follows
  rw [bind_of_ok rfl]
  exact late (text ++ rest) rest follows

theorem reads_bounded {scanner : Nat → Scanner Symbol Call Error Value}
    (reads : ∀ bound, text.length < bound → Reads (scanner bound) text calls value follow) :
    Reads (bounded scanner) text calls value follow := by
  intro rest follows
  refine reads ((text ++ rest).length + 1) ?_ rest follows
  rw [List.length_append]
  omega

theorem Reads.weaken (reads : Reads scanner text calls value between)
    (fits : ∀ rest, follow rest → between rest) : Reads scanner text calls value follow :=
  fun rest follows => reads rest (fits rest follows)

/-! ## What is left -/

/-- The scanner does not end with an error, and leaves fewer symbols than a limit. -/
structure Leaves (error : Error) (scanner : Scanner Symbol Call Error Value)
    (text : List Symbol) (limit : Nat) : Prop where
  never : (scanner text).2 ≠ .error error
  within : ∀ value rest, (scanner text).2 = .ok (value, rest) → rest.length < limit

variable {error : Error} {limit middle : Nat}

/-- What is left by the first scanner is read by the second. -/
theorem Leaves.bind (early : Leaves error first text middle)
    (late : ∀ step rest, rest.length < middle → Leaves error (next step) rest limit) :
    Leaves error (first >>= next) text limit := by
  rcases result : first text with ⟨calls, outcome⟩
  have never := early.never
  have within := early.within
  rw [result] at never within
  cases outcome with
  | error other =>
      refine ⟨?_, ?_⟩
      · rw [bind_of_error result]
        rintro ⟨⟩
        exact never rfl
      · rw [bind_of_error result]
        rintro value rest ⟨⟩
  | ok outcome =>
      rcases outcome with ⟨step, left⟩
      have second := late step left (within step left rfl)
      refine ⟨?_, ?_⟩
      · rw [bind_of_ok result]
        exact second.never
      · rw [bind_of_ok result]
        exact second.within

theorem Leaves.peek {ending : Symbol} {next : Symbol → Scanner Symbol Call Error Value}
    (late : Leaves error (next (text.headD ending)) text limit) :
    Leaves error (Scanner.peek ending >>= next) text limit :=
  ⟨late.never, late.within⟩

theorem Leaves.remaining {next : List Symbol → Scanner Symbol Call Error Value}
    (late : Leaves error (next text) text limit) :
    Leaves error (Scanner.remaining >>= next) text limit :=
  ⟨late.never, late.within⟩

/-- A symbol is taken of a text that does not show its end. -/
theorem Leaves.take {ending : Symbol} {next : Unit → Scanner Symbol Call Error Value}
    (visible : text.headD ending ≠ ending)
    (late : ∀ rest, rest.length + 1 = text.length → Leaves error (next ()) rest limit) :
    Leaves error (Scanner.take >>= next) text limit := by
  cases text with
  | nil => exact absurd rfl visible
  | cons symbol rest =>
      have leaves := late rest rfl
      exact ⟨leaves.never, leaves.within⟩

theorem leaves_pure (fits : text.length < limit) :
    Leaves error (pure value : Scanner Symbol Call Error Value) text limit :=
  ⟨nofun, fun _ _ read => by cases read; exact fits⟩

theorem leaves_call (event : Call) (fits : text.length < limit) :
    Leaves error (call event : Scanner Symbol Call Error Unit) text limit :=
  ⟨nofun, fun _ _ read => by cases read; exact fits⟩

theorem leaves_fail {other : Error} (different : other ≠ error) (limit : Nat) :
    Leaves error (fail other : Scanner Symbol Call Error Value) text limit :=
  ⟨fun same => by cases same; exact different rfl, nofun⟩

theorem leaves_bounded {scanner : Nat → Scanner Symbol Call Error Value}
    (leaves : Leaves error (scanner (text.length + 1)) text limit) :
    Leaves error (bounded scanner) text limit :=
  ⟨leaves.never, leaves.within⟩

theorem leaves_skipWhile (property : Symbol → Bool) (fits : text.length < limit) :
    Leaves error (skipWhile property : Scanner Symbol Call Error Unit) text limit := by
  refine ⟨nofun, ?_⟩
  intro value rest read
  cases read
  exact Nat.lt_of_le_of_lt (List.dropWhile_suffix property).length_le fits

/-! ## Which calls are made -/

/-- What holds of the calls of a scanner that has read its text, and of one that has ended
with an error. -/
structure Makes (scanner : Scanner Symbol Call Error Value) (whole part : List Call → Prop) :
    Prop where
  whole : ∀ {text calls value rest}, scanner text = (calls, .ok (value, rest)) → whole calls
  part : ∀ {text calls error}, scanner text = (calls, .error error) → part calls

variable {begun broken ended cut whole part : List Call → Prop}

theorem Makes.bind (early : Makes first begun broken) (late : ∀ step, Makes (next step) ended cut)
    (joined : ∀ calls more, begun calls → ended more → whole (calls ++ more))
    (unbegun : ∀ calls, broken calls → part calls)
    (unended : ∀ calls more, begun calls → cut more → part (calls ++ more)) :
    Makes (first >>= next) whole part := by
  refine ⟨?_, ?_⟩
  · intro text calls value rest read
    rcases result : first text with ⟨made, outcome⟩
    cases outcome with
    | error error =>
        rw [bind_of_error result] at read
        cases read
    | ok outcome =>
        rcases outcome with ⟨step, middle⟩
        rcases second : next step middle with ⟨more, final⟩
        rw [bind_of_ok result, second] at read
        cases read
        exact joined _ _ (early.whole result) ((late step).whole second)
  · intro text calls error read
    rcases result : first text with ⟨made, outcome⟩
    cases outcome with
    | error error =>
        rw [bind_of_error result] at read
        cases read
        exact unbegun _ (early.part result)
    | ok outcome =>
        rcases outcome with ⟨step, middle⟩
        rcases second : next step middle with ⟨more, final⟩
        rw [bind_of_ok result, second] at read
        cases read
        exact unended _ _ (early.whole result) ((late step).part second)

theorem Makes.weaken (makes : Makes scanner begun broken)
    (fits : ∀ calls, begun calls → whole calls) (breaks : ∀ calls, broken calls → part calls) :
    Makes scanner whole part :=
  ⟨fun read => fits _ (makes.whole read), fun read => breaks _ (makes.part read)⟩

theorem makes_call (event : Call) :
    Makes (call event : Scanner Symbol Call Error Unit) (· = [event]) part :=
  ⟨fun read => by cases read; rfl, fun read => by cases read⟩

theorem makes_bounded {scanner : Nat → Scanner Symbol Call Error Value}
    (makes : ∀ bound, Makes (scanner bound) whole part) : Makes (bounded scanner) whole part :=
  ⟨fun read => (makes _).whole read, fun read => (makes _).part read⟩

theorem Makes.call {event : Call} {next : Unit → Scanner Symbol Call Error Value}
    (late : Makes (next ()) ended cut) (joined : ∀ more, ended more → whole (event :: more))
    (unended : ∀ more, cut more → part (event :: more)) :
    Makes (Scanner.call event >>= next) whole part := by
  have called : Makes (Scanner.call event : Scanner Symbol Call Error Unit) (· = [event])
      fun _ => False := makes_call event
  refine called.bind (fun _ => late) ?_ (fun _ => False.elim) ?_
  · rintro _ more rfl made
    exact joined more made
  · rintro _ more rfl made
    exact unended more made

/-- A scanner that makes no calls. -/
abbrev Silent (scanner : Scanner Symbol Call Error Value) : Prop :=
  Makes scanner (· = []) (· = [])

theorem Silent.bind (early : Silent first) (late : ∀ step, Makes (next step) whole part)
    (empty : part []) : Makes (first >>= next) whole part := by
  refine Makes.bind early late ?_ ?_ ?_
  · rintro _ more rfl made
    exact made
  · rintro _ rfl
    exact empty
  · rintro _ more rfl made
    exact made

theorem silent_pure : Silent (pure value : Scanner Symbol Call Error Value) :=
  ⟨fun read => by cases read; rfl, fun read => by cases read⟩

theorem makes_fail (error : Error) (empty : part []) :
    Makes (fail error : Scanner Symbol Call Error Value) whole part :=
  ⟨nofun, fun read => by cases read; exact empty⟩

theorem silent_peek {ending : Symbol} :
    Silent (peek ending : Scanner Symbol Call Error Symbol) :=
  ⟨fun read => by cases read; rfl, fun read => by cases read⟩

theorem silent_take : Silent (take : Scanner Symbol Call Error Unit) :=
  ⟨fun read => by cases read; rfl, fun read => by cases read⟩

theorem silent_remaining : Silent (remaining : Scanner Symbol Call Error (List Symbol)) :=
  ⟨fun read => by cases read; rfl, fun read => by cases read⟩

theorem silent_skipWhile (property : Symbol → Bool) :
    Silent (skipWhile property : Scanner Symbol Call Error Unit) :=
  ⟨fun read => by cases read; rfl, fun read => by cases read⟩

end Scanner

end MultiMaster.Foundation
