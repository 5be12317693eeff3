import ConfidentialCompute.Lib.Go
import Mathlib.Logic.Function.Basic

/-!
# Duplicate calls in flight

What a program may rely on of `singleflight.Group`: of the calls of `Do` with one key that overlap,
one runs the function and the others wait for its result. A flight is one run of the function. `Do`
is two accesses to the group for the call that leads a flight, `enter` and `land`; the other calls
enter and then read the result. The group itself is a parameter, `Flights`, and `Lawful` are the
hypotheses on it. `mapFlights` is a group that satisfies them.

Who leads what is a function from the parties of a protocol to keys and flights. `Led` says that
the group agrees with it, and has one rule for each access; `Awaits` says what a party that waits
can rely on.
-/

namespace SingleFlight

open Go

/-- What a call of `Do` is to do: run the function, or wait. -/
inductive Ticket where
  | leads (flight : Nat)
  | joins (flight : Nat)
deriving DecidableEq

/-- The groups of a library, with the accesses to them. `current` is the flight of a key that is
under way, `result` that of a flight that has landed. -/
structure Flights (K R : Type) where
  Group : Type
  empty : Group
  current : Group → K → Option Nat
  result : Group → Nat → Option R
  enter : Group → K → Group × Ticket
  land : Group → K → Nat → R → Group

namespace Flights

variable {K R : Type} [DecidableEq K] {lib : Flights K R} {g : lib.Group}

/-- Entering a group starts a flight of the key, one that has not been there before. -/
structure Starts (lib : Flights K R) (g : lib.Group) (key : K) (flight : Nat) : Prop where
  free : lib.current g key = none
  ticket : (lib.enter g key).2 = .leads flight
  unlanded : lib.result g flight = none
  unused : ∀ key', lib.current g key' ≠ some flight
  current : ∀ key', lib.current (lib.enter g key).1 key' =
    if key' = key then some flight else lib.current g key'
  result : ∀ flight', lib.result (lib.enter g key).1 flight' = lib.result g flight'

/-- A call joins the flight of its key, or starts one if there is none; a flight that lands is over
and leaves its result. -/
structure Lawful (lib : Flights K R) : Prop where
  current_empty : ∀ key, lib.current lib.empty key = none
  joins : ∀ g key flight, lib.current g key = some flight → lib.enter g key = (g, .joins flight)
  leads : ∀ g key, lib.current g key = none → ∃ flight, lib.Starts g key flight
  current_land : ∀ g key flight r key', lib.current g key = some flight →
    lib.current (lib.land g key flight r) key' = if key' = key then none else lib.current g key'
  result_land : ∀ g key flight r flight', lib.current g key = some flight →
    lib.result (lib.land g key flight r) flight' =
      if flight' = flight then some r else lib.result g flight'

/-- Each flight under way is led by one party, and a party leads flights under way only. -/
structure Led {ι : Type} (lib : Flights K R) (g : lib.Group) (lead : ι → Option (K × Nat)) :
    Prop where
  current_iff : ∀ key flight, lib.current g key = some flight ↔ ∃ p, lead p = some (key, flight)
  pending : ∀ p key flight, lead p = some (key, flight) → lib.result g flight = none
  alone : ∀ p q key key' flight, lead p = some (key, flight) → lead q = some (key', flight) → p = q

variable {ι : Type} {lead : ι → Option (K × Nat)} {p q : ι} {key key' : K}
  {flight flight' : Nat} {r : R}

theorem led_empty (lawful : lib.Lawful) : lib.Led lib.empty fun _ : ι => none :=
  ⟨fun key flight => by simp [lawful.current_empty], fun _ _ _ leads => (nomatch leads),
    fun _ _ _ _ _ leads => (nomatch leads)⟩

omit [DecidableEq K] in
/-- No two parties lead flights of one key. -/
theorem Led.unique (led : lib.Led g lead) (first : lead p = some (key, flight))
    (second : lead q = some (key, flight')) : p = q := by
  have current := (led.current_iff key flight).mpr ⟨p, first⟩
  have current' := (led.current_iff key flight').mpr ⟨q, second⟩
  rw [current] at current'
  cases current'
  exact led.alone p q key key flight first second

omit [DecidableEq K] in
theorem update_eq_some_iff [DecidableEq ι] {v : Option (K × Nat)} {x : K × Nat} :
    Function.update lead p v q = some x ↔ (q = p ∧ v = some x) ∨ (q ≠ p ∧ lead q = some x) := by
  rw [Function.update_apply]
  split <;> simp [*]

/-- A party that leads nothing may start a flight where there is none. -/
theorem Led.enter [DecidableEq ι] (led : lib.Led g lead) (idle : lead p = none)
    (starts : lib.Starts g key flight) :
    lib.Led (lib.enter g key).1 (Function.update lead p (some (key, flight))) := by
  have busy {q : ι} {x : K × Nat} (leads : lead q = some x) : q ≠ p := by
    intro isP
    rw [isP, idle] at leads
    cases leads
  have unused {q : ι} {key' : K} (leads : lead q = some (key', flight)) : False :=
    starts.unused key' ((led.current_iff key' flight).mpr ⟨q, leads⟩)
  refine ⟨fun key' flight' => ?_, fun q key' flight' leads => ?_,
    fun q q' key' key'' flight' leads leads' => ?_⟩
  · rw [starts.current]
    split
    · rename_i same
      subst same
      constructor
      · intro isFlight
        cases isFlight
        exact ⟨p, Function.update_self ..⟩
      · intro ⟨q, leads⟩
        rcases update_eq_some_iff.mp leads with ⟨_, new⟩ | ⟨_, old⟩
        · cases new
          rfl
        · cases starts.free.symm.trans ((led.current_iff key' flight').mpr ⟨q, old⟩)
    · rename_i other
      rw [led.current_iff]
      constructor
      · intro ⟨q, leads⟩
        exact ⟨q, update_eq_some_iff.mpr (Or.inr ⟨busy leads, leads⟩)⟩
      · intro ⟨q, leads⟩
        rcases update_eq_some_iff.mp leads with ⟨_, new⟩ | ⟨_, old⟩
        · cases new
          exact absurd rfl other
        · exact ⟨q, old⟩
  · rw [starts.result]
    rcases update_eq_some_iff.mp leads with ⟨_, new⟩ | ⟨_, old⟩
    · cases new
      exact starts.unlanded
    · exact led.pending q key' flight' old
  · rcases update_eq_some_iff.mp leads with ⟨isP, new⟩ | ⟨_, old⟩ <;>
      rcases update_eq_some_iff.mp leads' with ⟨isP', new'⟩ | ⟨_, old'⟩
    · rw [isP, isP']
    · cases new
      exact (unused old').elim
    · cases new'
      exact (unused old).elim
    · exact led.alone q q' key' key'' flight' old old'

/-- The flight of a party that lands is over, and no other is. -/
theorem Led.land [DecidableEq ι] (lawful : lib.Lawful) (led : lib.Led g lead)
    (leads : lead p = some (key, flight)) :
    lib.Led (lib.land g key flight r) (Function.update lead p none) := by
  have still {q : ι} {x : K × Nat} :
      Function.update lead p none q = some x ↔ q ≠ p ∧ lead q = some x := by
    rw [update_eq_some_iff]
    simp
  have current := (led.current_iff key flight).mpr ⟨p, leads⟩
  refine ⟨fun key' flight' => ?_, fun q key' flight' leads' => ?_,
    fun q q' key' key'' flight' leads' leads'' => ?_⟩
  · rw [lawful.current_land g key flight r key' current]
    split
    · rename_i same
      subst same
      constructor
      · intro found
        cases found
      · intro ⟨q, leads'⟩
        obtain ⟨ne, old⟩ := still.mp leads'
        exact absurd (led.unique old leads) ne
    · rename_i other
      rw [led.current_iff]
      constructor
      · intro ⟨q, old⟩
        refine ⟨q, still.mpr ⟨?_, old⟩⟩
        intro isP
        rw [isP, leads] at old
        cases old
        exact other rfl
      · intro ⟨q, leads'⟩
        exact ⟨q, (still.mp leads').2⟩
  · obtain ⟨ne, old⟩ := still.mp leads'
    rw [lawful.result_land g key flight r flight' current, if_neg]
    · exact led.pending q key' flight' old
    · rintro rfl
      exact ne (led.alone q p key' key flight' old leads)
  · exact led.alone q q' key' key'' flight' (still.mp leads').2 (still.mp leads'').2

/-! ## Waiting -/

/-- The flight is the one of the key that is under way, or has landed with a result as
described. -/
def Awaits (lib : Flights K R) (g : lib.Group) (P : R → Prop) (key : K) (flight : Nat) : Prop :=
  lib.current g key = some flight ∨ ∃ r, lib.result g flight = some r ∧ P r

variable {P Q : R → Prop}

omit [DecidableEq K] in
theorem Awaits.mono (weaker : ∀ r, P r → Q r) (awaits : lib.Awaits g P key flight) :
    lib.Awaits g Q key flight := by
  rcases awaits with current | ⟨r, landed, holds⟩
  · exact Or.inl current
  · exact Or.inr ⟨r, landed, weaker r holds⟩

theorem Awaits.enter (starts : lib.Starts g key' flight') (awaits : lib.Awaits g P key flight) :
    lib.Awaits (lib.enter g key').1 P key flight := by
  rcases awaits with current | ⟨r, landed, holds⟩
  · refine Or.inl ?_
    rw [starts.current, if_neg, current]
    rintro rfl
    cases starts.free.symm.trans current
  · exact Or.inr ⟨r, by rw [starts.result, landed], holds⟩

/-- What has landed stays, and who waits for the flight that lands gets its result. -/
theorem Awaits.land (lawful : lib.Lawful) (led : lib.Led g lead)
    (leads : lead p = some (key', flight')) (holds : key = key' → P r)
    (awaits : lib.Awaits g P key flight) : lib.Awaits (lib.land g key' flight' r) P key flight := by
  have current' := (led.current_iff key' flight').mpr ⟨p, leads⟩
  have result := lawful.result_land g key' flight' r flight current'
  rcases awaits with current | ⟨r', landed, holds'⟩
  · by_cases same : key = key'
    · subst same
      cases current'.symm.trans current
      exact Or.inr ⟨r, by rw [result, if_pos rfl], holds rfl⟩
    · exact Or.inl (by rw [lawful.current_land _ _ _ _ _ current', if_neg same, current])
  · refine Or.inr ⟨r', ?_, holds'⟩
    rw [result, if_neg, landed]
    rintro rfl
    cases (led.pending p key' flight leads).symm.trans landed

omit [DecidableEq K] in
/-- A party that waits has a result, or another party leads the flight it waits for. -/
theorem Awaits.result_or_led (led : lib.Led g lead) (awaits : lib.Awaits g P key flight) :
    (∃ r, lib.result g flight = some r ∧ P r) ∨ ∃ p, lead p = some (key, flight) := by
  rcases awaits with current | landed
  · exact Or.inr ((led.current_iff key flight).mp current)
  · exact Or.inl landed

end Flights

/-! ## A lawful group -/

/-- A map of the flights under way, and a cell for each flight there has been, empty until it has
landed. -/
structure MapGroup (K R : Type) [DecidableEq K] where
  m : GoMap K Nat
  results : List (Option R)
  begun : ∀ key flight, m.lookup key = some flight → flight < results.length

variable {K R : Type} [DecidableEq K]

def MapGroup.start (g : MapGroup K R) (key : K) : MapGroup K R where
  m := g.m.insert key g.results.length
  results := g.results ++ [none]
  begun key' flight found := by
    rw [List.length_append, List.length_singleton]
    rw [lookup_insert_eq] at found
    split at found
    · cases found
      exact Nat.lt_succ_self _
    · exact Nat.lt_succ_of_lt (g.begun key' flight found)

def MapGroup.land (g : MapGroup K R) (key : K) (flight : Nat) (r : R) : MapGroup K R where
  m := g.m.erase key
  results := g.results.set flight (some r)
  begun key' flight' found := by
    rw [List.length_set]
    rw [lookup_erase_eq] at found
    split at found
    · cases found
    · exact g.begun key' flight' found

def mapFlights (K R : Type) [DecidableEq K] : Flights K R where
  Group := MapGroup K R
  empty := ⟨∅, [], by simp⟩
  current g key := g.m.lookup key
  result g flight := (g.results[flight]?).join
  enter g key :=
    match g.m.lookup key with
    | some flight => (g, .joins flight)
    | none => (g.start key, .leads g.results.length)
  land := MapGroup.land

theorem mapFlights_lawful : (mapFlights K R).Lawful where
  current_empty key := by simp [mapFlights]
  joins g key flight current := by
    have found : g.m.lookup key = some flight := current
    simp only [mapFlights, found]
  leads g key free := by
    have absent : g.m.lookup key = none := free
    refine ⟨g.results.length, free, ?_, ?_, fun key' current => ?_, fun key' => ?_,
      fun flight => ?_⟩
    · simp only [mapFlights, absent]
    · simp [mapFlights]
    · exact Nat.lt_irrefl _ (g.begun key' _ current)
    · simp only [mapFlights, absent, MapGroup.start]
      exact lookup_insert_eq ..
    · simp only [mapFlights, absent, MapGroup.start]
      grind
  current_land g key flight r key' _ := lookup_erase_eq ..
  result_land g key flight r flight' current := by
    have bound := g.begun key flight current
    simp only [mapFlights, MapGroup.land]
    grind

end SingleFlight
