import Mathlib.Data.List.Basic

/-!
# Semaphores

What a program may rely on of `semaphore.Weighted`, when parties that do not give up take it one
unit at a time: who asks for a unit is given one or waits, and a unit that is given back goes to one
that waits, if there is one. In which order they are served is open. The semaphores are a
parameter, `Semaphores`, and `Lawful` are the hypotheses on them. `queues` are semaphores that
satisfy them.

`Tight` says what every use keeps: never more units out than there are, and nobody waiting while a
unit is free.
-/

/-- How a request for a unit goes on. -/
inductive Semaphores.Grant where
  | granted
  | queued
  /-- There will never be a unit. -/
  | never
deriving DecidableEq

/-- The semaphores of a library, with the accesses to them. `cur` is the number of units that are
out, `waiters` who waits for one; `release` names the party that it wakes. -/
structure Semaphores (ι : Type) where
  Weighted : Type
  newWeighted : Int → Weighted
  size : Weighted → Int
  cur : Weighted → Nat
  waiters : Weighted → List ι
  acquire : Weighted → ι → Weighted × Semaphores.Grant
  release : Weighted → Weighted × Option ι

namespace Semaphores

variable {ι : Type}

structure Tight (lib : Semaphores ι) (g : lib.Weighted) : Prop where
  positive : 1 ≤ lib.size g
  within : (lib.cur g : Int) ≤ lib.size g
  busy : lib.waiters g ≠ [] → (lib.cur g : Int) = lib.size g

/-- A request finds a unit, or waits. -/
inductive Acquires (lib : Semaphores ι) (g : lib.Weighted) (p : ι) : lib.Weighted × Grant → Prop
  | granted {g' : lib.Weighted} (room : (lib.cur g : Int) < lib.size g)
      (cur : lib.cur g' = lib.cur g + 1) (nobody : lib.waiters g = [])
      (nobody' : lib.waiters g' = []) : Acquires lib g p (g', .granted)
  | queued {g' : lib.Weighted} (full : (lib.cur g : Int) = lib.size g)
      (cur : lib.cur g' = lib.cur g) (waits : (lib.waiters g').Perm (p :: lib.waiters g)) :
      Acquires lib g p (g', .queued)

/-- A unit is free again, or is handed to one that waits. -/
inductive Releases (lib : Semaphores ι) (g : lib.Weighted) : lib.Weighted × Option ι → Prop
  | freed {g' : lib.Weighted} (cur : lib.cur g' + 1 = lib.cur g) (nobody : lib.waiters g = [])
      (nobody' : lib.waiters g' = []) : Releases lib g (g', none)
  | handed {g' : lib.Weighted} {p : ι} (cur : lib.cur g' = lib.cur g)
      (waited : (lib.waiters g).Perm (p :: lib.waiters g')) : Releases lib g (g', some p)

structure Lawful (lib : Semaphores ι) : Prop where
  size_new : ∀ n, 1 ≤ n → lib.size (lib.newWeighted n) = n
  cur_new : ∀ n, 1 ≤ n → lib.cur (lib.newWeighted n) = 0
  waiters_new : ∀ n, 1 ≤ n → lib.waiters (lib.newWeighted n) = []
  size_acquire : ∀ g p, lib.size (lib.acquire g p).1 = lib.size g
  size_release : ∀ g, lib.size (lib.release g).1 = lib.size g
  acquire : ∀ g p, lib.Tight g → lib.Acquires g p (lib.acquire g p)
  release : ∀ g, lib.Tight g → 0 < lib.cur g → lib.Releases g (lib.release g)

section

variable {lib : Semaphores ι} {g : lib.Weighted} {p : ι}

theorem tight_new (lawful : lib.Lawful) {n : Int} (positive : 1 ≤ n) :
    lib.Tight (lib.newWeighted n) := by
  have size := lawful.size_new n positive
  have cur := lawful.cur_new n positive
  exact ⟨by omega, by omega, fun more => absurd (lawful.waiters_new n positive) more⟩

theorem Tight.acquire (lawful : lib.Lawful) (tight : lib.Tight g) :
    lib.Tight (lib.acquire g p).1 := by
  have positive := tight.positive
  have within := tight.within
  have size := lawful.size_acquire g p
  have acquires := lawful.acquire g p tight
  generalize lib.acquire g p = next at acquires size
  cases acquires with
  | granted room cur _ nobody' =>
      dsimp only at size ⊢
      exact ⟨by omega, by omega, fun more => absurd nobody' more⟩
  | queued full cur _ =>
      dsimp only at size ⊢
      exact ⟨by omega, by omega, fun _ => by omega⟩

theorem Tight.release (lawful : lib.Lawful) (tight : lib.Tight g) (out : 0 < lib.cur g) :
    lib.Tight (lib.release g).1 := by
  have positive := tight.positive
  have within := tight.within
  have size := lawful.size_release g
  have releases := lawful.release g tight out
  generalize lib.release g = next at releases size
  cases releases with
  | freed cur _ nobody' =>
      dsimp only at size ⊢
      exact ⟨by omega, by omega, fun more => absurd nobody' more⟩
  | handed cur waited =>
      have busy := tight.busy fun nobody => by
        rw [nobody] at waited
        cases waited.symm.eq_nil
      dsimp only at size ⊢
      exact ⟨by omega, by omega, fun _ => by omega⟩

end

/-! ## Semaphores with a queue -/

/-- A semaphore that serves those that wait in the order in which they came. -/
structure Queue (ι : Type) where
  size : Int
  cur : Nat
  waiters : List ι
deriving DecidableEq

namespace Queue

def acquire (g : Queue ι) (p : ι) : Queue ι × Grant :=
  if 1 ≤ g.size - g.cur ∧ g.waiters = [] then ({ g with cur := g.cur + 1 }, .granted)
  else if g.size < 1 then (g, .never)
  else ({ g with waiters := g.waiters ++ [p] }, .queued)

def release (g : Queue ι) : Queue ι × Option ι :=
  match g.waiters with
  | [] => ({ g with cur := g.cur - 1 }, none)
  | p :: rest => ({ g with waiters := rest }, some p)

end Queue

def queues (ι : Type) : Semaphores ι where
  Weighted := Queue ι
  newWeighted size := ⟨size, 0, []⟩
  size := Queue.size
  cur := Queue.cur
  waiters := Queue.waiters
  acquire := Queue.acquire
  release := Queue.release

instance [DecidableEq ι] : DecidableEq (queues ι).Weighted :=
  inferInstanceAs (DecidableEq (Queue ι))

theorem queues_acquires {g : Queue ι} (p : ι) (tight : (queues ι).Tight g) :
    (queues ι).Acquires g p (g.acquire p) := by
  have positive : 1 ≤ g.size := tight.positive
  have within : (g.cur : Int) ≤ g.size := tight.within
  unfold Queue.acquire
  by_cases free : 1 ≤ g.size - g.cur ∧ g.waiters = []
  · rw [if_pos free]
    refine .granted ?_ rfl free.2 free.2
    show (g.cur : Int) < g.size
    omega
  · rw [if_neg free, if_neg (by omega)]
    refine .queued ?_ rfl List.perm_append_comm
    show (g.cur : Int) = g.size
    by_cases nobody : g.waiters = []
    · have full : ¬ 1 ≤ g.size - g.cur := fun room => free ⟨room, nobody⟩
      omega
    · exact tight.busy nobody

theorem queues_releases {g : Queue ι} (out : 0 < g.cur) : (queues ι).Releases g g.release := by
  unfold Queue.release
  split
  · rename_i nobody
    exact .freed (Nat.sub_add_cancel out) nobody nobody
  · rename_i p rest isQueue
    exact .handed rfl (isQueue ▸ .refl _)

theorem queues_lawful (ι : Type) : (queues ι).Lawful where
  size_new _ _ := rfl
  cur_new _ _ := rfl
  waiters_new _ _ := rfl
  size_acquire g p := by
    show (g.acquire p).1.size = g.size
    unfold Queue.acquire
    split
    · rfl
    · split <;> rfl
  size_release g := by
    show g.release.1.size = g.size
    unfold Queue.release
    split <;> rfl
  acquire _ p tight := queues_acquires p tight
  release _ _ out := queues_releases out

end Semaphores
