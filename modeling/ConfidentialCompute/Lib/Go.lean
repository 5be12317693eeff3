import Mathlib.Data.Finmap

/-!
# Go values

The parts of Go's data model that the translated code depends on: slices, whose
length is an `int`; fixed arrays of 32 bytes; maps; and the three ways a call can
end. A panic is kept apart from an error because it unwinds past the code that
would have released a lock or written a reply. Points in time and durations are integers,
in nanoseconds.
-/

namespace Go

/-- A byte stream, such as the text fed to a hash. -/
abbrev Bytes := List UInt8

/-- A slice: `len` is an `int`, so it is below `2 ^ 63`. -/
structure Slice (α : Type) where
  data : List α
  bound : data.length < 2 ^ 63
deriving DecidableEq

namespace Slice

variable {α : Type}

instance : Membership α (Slice α) := ⟨fun s a => a ∈ s.data⟩

instance : EmptyCollection (Slice α) := ⟨⟨[], Nat.two_pow_pos 63⟩⟩

instance : Inhabited (Slice α) := ⟨∅⟩

def length (s : Slice α) : Nat := s.data.length

@[simp] theorem mem_def {s : Slice α} {a : α} : a ∈ s ↔ a ∈ s.data := Iff.rfl

theorem data_injective : Function.Injective (data : Slice α → List α) := by
  rintro ⟨a, _⟩ ⟨b, _⟩ same
  cases same
  rfl

theorem length_lt (s : Slice α) : s.length < 256 ^ 8 :=
  Nat.lt_trans s.bound (by decide)

/-- A loop that appends one value for each element. -/
def map {β : Type} (f : α → β) (s : Slice α) : Slice β :=
  ⟨s.data.map f, by rw [List.length_map]; exact s.bound⟩

end Slice

section

variable {α β ε : Type} {f : α → Except ε β} {as : List α} {bs : List β} {b : β}

/-- A call and what is done with its result succeed together. -/
theorem bind_ok_iff {x : Except ε α} :
    x >>= f = .ok b ↔ ∃ a, x = .ok a ∧ f a = .ok b := by
  cases x with
  | error e => simp [bind, Except.bind]
  | ok a => simp [bind, Except.bind]

/-- What a loop has appended, one value for each element. -/
theorem mapM_ok_iff :
    as.mapM f = .ok bs ↔ List.Forall₂ (fun a b => f a = .ok b) as bs := by
  induction as generalizing bs with
  | nil =>
      rw [List.mapM_nil, List.forall₂_nil_left_iff]
      exact ⟨fun same => (Except.ok.inj same).symm, fun same => same ▸ rfl⟩
  | cons a as ih =>
      rw [List.mapM_cons, List.forall₂_cons_left_iff]
      cases first : f a with
      | error e => simp [bind, Except.bind]
      | ok b =>
          cases later : as.mapM f with
          | error e =>
              have none_ : ∀ bs, ¬ List.Forall₂ (fun a b => f a = .ok b) as bs := by
                intro bs all
                cases later.symm.trans (ih.mpr all)
              simp [bind, Except.bind, none_]
          | ok rest =>
              have only : ∀ bs, List.Forall₂ (fun a b => f a = .ok b) as bs ↔ bs = rest :=
                fun bs => by rw [← ih, later, Except.ok.injEq, eq_comm]
              simp [bind, Except.bind, pure, Except.pure, only, eq_comm]

/-- The values of a loop that did not fail. -/
theorem mem_iff_of_mapM (appended : as.mapM f = .ok bs) : b ∈ bs ↔ ∃ a ∈ as, f a = .ok b := by
  induction mapM_ok_iff.mp appended with
  | nil => simp
  | @cons a b' as bs first rest ih =>
      rw [List.mem_cons, ih (mapM_ok_iff.mpr rest)]
      simp [first, eq_comm]

/-- A loop does not fail if no element makes it fail. -/
theorem exists_mapM_ok_iff :
    (∃ bs, as.mapM f = .ok bs) ↔ ∀ a ∈ as, ∃ b, f a = .ok b := by
  simp only [mapM_ok_iff]
  induction as with
  | nil => simp
  | cons a as ih =>
      rw [List.forall_mem_cons, ← ih]
      constructor
      · rintro ⟨_, all⟩
        cases all with
        | cons first rest => exact ⟨⟨_, first⟩, _, rest⟩
      · rintro ⟨⟨b, first⟩, bs, rest⟩
        exact ⟨b :: bs, .cons first rest⟩

/-- Two loops, the second over what the first has appended. -/
theorem forall₂_comp {γ : Type} {R : α → β → Prop} {S : β → γ → Prop} {cs : List γ}
    (first : List.Forall₂ R as bs) (second : List.Forall₂ S bs cs) :
    List.Forall₂ (fun a c => ∃ b, R a b ∧ S b c) as cs := by
  induction first generalizing cs with
  | nil =>
      cases second
      exact .nil
  | cons head _ ih =>
      cases second with
      | cons head' tail' => exact .cons ⟨_, head, head'⟩ (ih tail')

/-- What a loop has appended was appended for some element. -/
theorem exists_of_forall₂ {R : α → β → Prop} (all : List.Forall₂ R as bs) (among : b ∈ bs) :
    ∃ a ∈ as, R a b := by
  induction all with
  | nil => cases among
  | cons head _ ih =>
      rcases List.mem_cons.mp among with rfl | among
      · exact ⟨_, List.mem_cons_self, head⟩
      · obtain ⟨a, member, related⟩ := ih among
        exact ⟨a, List.mem_cons_of_mem _ member, related⟩

/-- What a loop appended at some position comes from one element, and what it appended before that
comes from the elements before. -/
theorem getElem?_filterMap_iff {f : α → Option β} {k : Nat} :
    (as.filterMap f)[k]? = some b ↔
      ∃ before a after, as = before ++ a :: after ∧ f a = some b ∧
        (before.filterMap f).length = k := by
  constructor
  · intro found
    obtain ⟨bound, isB⟩ := List.getElem?_eq_some_iff.mp found
    have parts : as.filterMap f =
        (as.filterMap f).take k ++ b :: (as.filterMap f).drop (k + 1) := by
      rw [← isB, ← List.drop_eq_getElem_cons bound, List.take_append_drop]
    obtain ⟨left, right, isAs, isLeft, isRight⟩ := List.filterMap_eq_append_iff.mp parts
    obtain ⟨skipped, a, after, isRight, nothing, isA, _⟩ := List.filterMap_eq_cons_iff.mp isRight
    refine ⟨left ++ skipped, a, after, ?_, isA, ?_⟩
    · rw [isAs, isRight, List.append_assoc]
    · rw [List.filterMap_append, List.filterMap_eq_nil_iff.mpr nothing, List.append_nil, isLeft,
        List.length_take, Nat.min_eq_left (Nat.le_of_lt bound)]
  · rintro ⟨before, a, after, rfl, isA, rfl⟩
    rw [List.filterMap_append, List.filterMap_cons_some isA,
      List.getElem?_append_right (Nat.le_refl _), Nat.sub_self]
    rfl

/-- No more elements have a weaker property only if all that have it have the stronger one. -/
theorem forall_of_countP_le {p q : α → Bool} (imp : ∀ a ∈ as, p a = true → q a = true)
    (le : as.countP q ≤ as.countP p) :
    ∀ a ∈ as, q a = true → p a = true := by
  induction as with
  | nil => exact fun _ member => by cases member
  | cons first rest ih =>
      have tail : ∀ a ∈ rest, p a = true → q a = true := fun a member =>
        imp a (List.mem_cons_of_mem _ member)
      have fewer : rest.countP p ≤ rest.countP q := List.countP_mono_left tail
      have head := imp first List.mem_cons_self
      rw [List.countP_cons, List.countP_cons] at le
      intro a member holds
      rcases List.mem_cons.mp member with rfl | later
      · by_contra lacks
        rw [if_pos holds, if_neg lacks] at le
        omega
      · refine ih tail ?_ a later holds
        by_cases both : p first = true
        · rw [if_pos both, if_pos (head both)] at le
          omega
        · rw [if_neg both] at le
          omega

/-- A loop that appends one value for each element, unless it returns an error first. -/
def Slice.traverse (f : α → Except ε β) (s : Slice α) : Except ε (Slice β) :=
  match appended : s.data.mapM f with
  | .error e => .error e
  | .ok bs => .ok ⟨bs, by
      rw [← (mapM_ok_iff.mp appended).length_eq]
      exact s.bound⟩

theorem Slice.traverse_ok_iff {s : Slice α} {t : Slice β} :
    s.traverse f = .ok t ↔ List.Forall₂ (fun a b => f a = .ok b) s.data t.data := by
  rw [← mapM_ok_iff]
  unfold Slice.traverse
  split
  · rename_i err failed
    rw [failed]
    constructor <;> exact fun other => by cases other
  · rename_i bs appended
    constructor
    · intro same
      cases same
      exact appended
    · intro same
      have data : bs = t.data := Except.ok.inj (appended.symm.trans same)
      exact congrArg Except.ok (Slice.data_injective data)

theorem Slice.traverse_ok {s : Slice α} {t : Slice β} (ok : s.traverse f = .ok t) :
    List.Forall₂ (fun a b => f a = .ok b) s.data t.data :=
  Slice.traverse_ok_iff.mp ok

end

/-- A string is a read-only slice of bytes. -/
abbrev GoString := Slice UInt8

/-- The bytes of a string constant. -/
def ascii (s : String) : Bytes := s.toUTF8.data.toList

/-- `[32]byte`. -/
structure Bytes32 where
  data : Bytes
  length_eq : data.length = 32
deriving DecidableEq

theorem Bytes32.data_injective : Function.Injective Bytes32.data := by
  rintro ⟨a, _⟩ ⟨b, _⟩ same
  cases same
  rfl

instance : Inhabited Bytes32 := ⟨⟨List.replicate 32 0, by decide⟩⟩

/-- The order of `bytes.Compare`: lexicographic, a proper prefix first. -/
def bytesLE : Bytes → Bytes → Bool
  | [], _ => true
  | _ :: _, [] => false
  | a :: as, b :: bs => a < b || (a == b && bytesLE as bs)

/-- How a call ends. -/
inductive Outcome (ε α : Type) where
  | ok (value : α)
  | err (error : ε)
  | panicked
deriving DecidableEq

/-! ## Maps -/

/-- A Go map: finitely many keys, in no order. -/
abbrev GoMap (K V : Type) := Finmap fun _ : K => V

variable {K V : Type} [DecidableEq K] {m : GoMap K V} {entries : List (K × V)} {k k' : K} {v v' : V}

theorem lookup_insert_eq (m : GoMap K V) (k k' : K) (v : V) :
    (m.insert k v).lookup k' = if k' = k then some v else m.lookup k' := by
  split
  · rename_i same
    subst same
    exact Finmap.lookup_insert m
  · rename_i other
    exact Finmap.lookup_insert_of_ne m other

theorem lookup_erase_eq (m : GoMap K V) (k k' : K) :
    (m.erase k).lookup k' = if k' = k then none else m.lookup k' := by
  split
  · rename_i same
    subst same
    exact Finmap.lookup_erase _ _
  · rename_i other
    exact Finmap.lookup_erase_ne other

/-- An entry of the new map is the one just stored or an old one. -/
theorem lookup_insert_cases (found : (m.insert k v).lookup k' = some v') :
    (k' = k ∧ v' = v) ∨ (k' ≠ k ∧ m.lookup k' = some v') := by
  rw [lookup_insert_eq] at found
  split at found
  · rename_i same
    exact Or.inl ⟨same, (Option.some.inj found).symm⟩
  · rename_i other
    exact Or.inr ⟨other, found⟩

/-- What holds of the entry just stored and of the old entries holds of the new map. -/
theorem forall_lookup_insert {P : K → V → Prop} (old : ∀ k' v', m.lookup k' = some v' → P k' v')
    (new : P k v) :
    ∀ k' v', (m.insert k v).lookup k' = some v' → P k' v' := by
  intro k' v' found
  rcases lookup_insert_cases found with ⟨rfl, rfl⟩ | ⟨_, found⟩
  · exact new
  · exact old k' v' found

/-- The map after the entries have been stored one after the other. -/
def storeAll (m : GoMap K V) (entries : List (K × V)) : GoMap K V :=
  entries.foldl (fun m entry => m.insert entry.1 entry.2) m

theorem lookup_storeAll_of_notMem (absent : ∀ v, (k, v) ∉ entries) :
    (storeAll m entries).lookup k = m.lookup k := by
  induction entries generalizing m with
  | nil => rfl
  | cons entry entries ih =>
      have other : k ≠ entry.1 := by
        intro same
        subst same
        exact absent entry.2 List.mem_cons_self
      calc (storeAll (m.insert entry.1 entry.2) entries).lookup k
        _ = (m.insert entry.1 entry.2).lookup k :=
            ih fun v among => absent v (List.mem_cons_of_mem _ among)
        _ = m.lookup k := Finmap.lookup_insert_of_ne m other

/-- Under the key of an entry the last entry with that key is found. -/
theorem lookup_storeAll_of_mem (member : (k, v) ∈ entries) :
    ∃ v', (k, v') ∈ entries ∧ (storeAll m entries).lookup k = some v' := by
  induction entries generalizing m v with
  | nil => cases member
  | cons entry entries ih =>
      by_cases later : ∃ v', (k, v') ∈ entries
      · obtain ⟨v', among⟩ := later
        obtain ⟨v'', among', found⟩ := ih (m := m.insert entry.1 entry.2) among
        exact ⟨v'', List.mem_cons_of_mem _ among', found⟩
      · rcases List.mem_cons.mp member with rfl | among
        · refine ⟨v, member, ?_⟩
          calc (storeAll (m.insert k v) entries).lookup k
            _ = (m.insert k v).lookup k :=
                lookup_storeAll_of_notMem fun v' among => later ⟨v', among⟩
            _ = some v := Finmap.lookup_insert m
        · exact (later ⟨v, among⟩).elim

/-- What is found in a map filled from scratch is one of the entries. -/
theorem mem_of_lookup_storeAll (found : (storeAll ∅ entries).lookup k = some v) :
    (k, v) ∈ entries := by
  by_cases stored : ∃ v', (k, v') ∈ entries
  · obtain ⟨v', member⟩ := stored
    obtain ⟨v'', member', found'⟩ := lookup_storeAll_of_mem (m := ∅) member
    cases found.symm.trans found'
    exact member'
  · rw [lookup_storeAll_of_notMem fun v' member => stored ⟨v', member⟩,
      Finmap.lookup_empty] at found
    cases found

/-- **No entry is lost** exactly when entries with the same key have the same value. -/
theorem lookup_storeAll_iff :
    (∀ k v, (k, v) ∈ entries → (storeAll m entries).lookup k = some v) ↔
      ∀ k v v', (k, v) ∈ entries → (k, v') ∈ entries → v = v' := by
  constructor
  · intro kept k v v' member member'
    exact Option.some.inj ((kept k v member).symm.trans (kept k v' member'))
  · intro functional k v member
    obtain ⟨v', member', found⟩ := lookup_storeAll_of_mem (m := m) member
    rw [found, functional k v v' member member']

/-- Entries with the same key have the same value. -/
def Functional (entries : List (K × V)) : Prop :=
  ∀ k v v', (k, v) ∈ entries → (k, v') ∈ entries → v = v'

omit [DecidableEq K] in
theorem functional_zip_iff {α β : Type} {f : α → K} {g : β → V} {as : List α} {bs : List β} :
    Functional ((as.map f).zip (bs.map g)) ↔
      ∀ a ∈ as.zip bs, ∀ b ∈ as.zip bs, f a.1 = f b.1 → g a.2 = g b.2 := by
  rw [List.zip_map]
  constructor
  · intro functional a among b among' same
    refine functional (f a.1) _ _ (List.mem_map_of_mem among) ?_
    rw [same]
    exact List.mem_map_of_mem among'
  · intro agree k v v' member member'
    obtain ⟨a, among, isA⟩ := List.mem_map.mp member
    obtain ⟨b, among', isB⟩ := List.mem_map.mp member'
    cases isA
    obtain ⟨same, rfl⟩ := Prod.mk.inj isB
    exact agree a among b among' same.symm

/-- An order in which `range` may visit the keys of a map. Go leaves it open, so what is
said of a `range` loop is said of every such order. -/
structure MapOrder (K V : Type) where
  keys : GoMap K V → List K
  nodup : ∀ m, (keys m).Nodup
  mem_iff : ∀ m k, k ∈ keys m ↔ k ∈ m

omit [DecidableEq K] in
theorem MapOrder.keys_empty (order : MapOrder K V) : order.keys ∅ = [] :=
  List.eq_nil_iff_forall_not_mem.mpr fun k among =>
    Finmap.notMem_empty ((order.mem_iff ∅ k).mp among)

/-- There is one order for one entry. -/
theorem MapOrder.keys_single (order : MapOrder K V) (k : K) (v : V) :
    order.keys (Finmap.insert k v ∅) = [k] := by
  have member (k' : K) : k' ∈ order.keys (Finmap.insert k v ∅) ↔ k' = k := by
    rw [order.mem_iff, Finmap.mem_insert]
    exact or_iff_left Finmap.notMem_empty
  refine List.perm_singleton.mp ((List.perm_ext_iff_of_nodup (order.nodup _) ?_).mpr fun k' => ?_)
  · exact List.nodup_singleton k
  · rw [member k', List.mem_singleton]

instance decidableForallLookup {P : K → V → Prop} [∀ k v, Decidable (P k v)] :
    Decidable (∀ k v, m.lookup k = some v → P k v) :=
  decidable_of_iff (∀ k ∈ m.keys, ∀ v ∈ m.lookup k, P k v) <| by
    constructor
    · intro all k v found
      exact all k (Finmap.mem_keys.mpr (Finmap.mem_of_lookup_eq_some found)) v found
    · intro all k _ v found
      exact all k v found

end Go
