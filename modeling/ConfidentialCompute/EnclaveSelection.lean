import ConfidentialCompute.EnclavePool
import ConfidentialCompute.Lib.Sorting
import ConfidentialCompute.Sample
import Mathlib.Data.List.Rotate

/-!
# The choice of an enclave

`SelectEnclaves` of the round-robin selector, on the node list that the executor has sorted by
enclave ID. The selector leaves out the enclaves that do not meet the requirements, begins at the
position that the request ID gives, and goes round until it comes to an enclave that is not dead.
Nodes of one DON read one registry, but not in one order, so they agree on the enclave of a request
only because they sort.

`slices.SortFunc` is not stable; where IDs are distinct that makes no difference.
-/

namespace ConfidentialCompute

open Go Runs

/-! ## The code -/

/-- By ID, in descending order. -/
def sortEnclaveNodes (nodes : Slice PoolNode) : Slice PoolNode :=
  ⟨nodes.data.mergeSort fun a b => bytesLE b.enclaveID.data a.enclaveID.data, by
    rw [List.length_mergeSort]
    exact nodes.bound⟩

/-- The first enclave that is not dead. -/
def firstLive (deadEnclaves : GoMap Bytes32 Unit) (todo : List PoolNode) : Option PoolNode :=
  todo.find? fun selectedNode => selectedNode.enclaveID ∉ deadEnclaves

def selectEnclaves (deadEnclaves : GoMap Bytes32 Unit) (enclaves : Slice PoolNode)
    (requestID : Bytes32) (checkRequirements : RequirementsChecker) :
    Except String (List PoolNode) :=
  match candidates enclaves.data requestID checkRequirements with
  | [] => .error "no nodes available"
  | todo =>
      match firstLive deadEnclaves todo with
      | some selectedNode => .ok [selectedNode]
      | none => .error "no live enclaves available"

/-- A nil checker accepts every enclave. -/
def RequirementsChecker.Accepts (checkRequirements : RequirementsChecker) (enc : PoolNode) : Prop :=
  (checkRequirements.map (· enc)).getD true = true

instance (checkRequirements : RequirementsChecker) (enc : PoolNode) :
    Decidable (checkRequirements.Accepts enc) := inferInstanceAs (Decidable (_ = _))

section

variable {deadEnclaves : GoMap Bytes32 Unit} {nodes nodes' : Slice PoolNode}
  {requestID : Bytes32} {check : RequirementsChecker}

/-! ## Candidates -/

theorem filterMap_getElem?_range {α : Type} (as : List α) :
    ((List.range as.length).filterMap fun i => as[i]?) = as := by
  induction as with
  | nil => rfl
  | cons a as ih =>
      rw [List.length_cons, List.range_succ_eq_map, List.filterMap_cons, List.filterMap_map]
      exact congrArg (a :: ·) ih

/-- The accepted enclaves, beginning at the position that the request ID gives. -/
theorem candidates_eq_rotate (enclaves : List PoolNode) :
    candidates enclaves requestID check =
      (enclaves.filter fun enc => check.Accepts enc).rotate
        (calcMod requestID (enclaves.filter fun enc => check.Accepts enc).length) := by
  have accepted : (enclaves.filter fun enc => (check.map (· enc)).getD true) =
      enclaves.filter fun enc => check.Accepts enc :=
    List.filter_congr fun enc _ => Bool.decide_eq_true.symm
  unfold candidates
  rw [accepted]
  dsimp only
  generalize (enclaves.filter fun enc => check.Accepts enc) = accepted
  have same := filterMap_getElem?_range
    (accepted.rotate (calcMod requestID accepted.length))
  rw [List.length_rotate] at same
  rw [← same]
  refine List.filterMap_congr fun i among => ?_
  rw [List.getElem?_rotate (List.mem_range.mp among), Nat.add_comm]

theorem mem_candidates {enclaves : List PoolNode} {enc : PoolNode} :
    enc ∈ candidates enclaves requestID check ↔ enc ∈ enclaves ∧ check.Accepts enc := by
  rw [candidates_eq_rotate, List.mem_rotate, List.mem_filter, decide_eq_true_iff]

/-! ## The selection -/

theorem firstLive_cons_dead {enc : PoolNode} {rest : List PoolNode}
    (dead : enc.enclaveID ∈ deadEnclaves) :
    firstLive deadEnclaves (enc :: rest) = firstLive deadEnclaves rest :=
  List.find?_cons_of_neg (by simpa using dead)

theorem firstLive_cons_live {enc : PoolNode} {rest : List PoolNode}
    (live : enc.enclaveID ∉ deadEnclaves) : firstLive deadEnclaves (enc :: rest) = some enc :=
  List.find?_cons_of_pos (by simpa using live)

theorem selectEnclaves_ok_iff {selected : List PoolNode} :
    selectEnclaves deadEnclaves nodes requestID check = .ok selected ↔
      ∃ enc, firstLive deadEnclaves (candidates nodes.data requestID check) = some enc ∧
        selected = [enc] := by
  unfold selectEnclaves
  cases todo : candidates nodes.data requestID check with
  | nil => simp [firstLive]
  | cons first rest =>
      dsimp only
      cases found : firstLive deadEnclaves (first :: rest) with
      | none => simp
      | some enc => simp [eq_comm]

theorem firstLive_isSome_iff :
    (∃ enc, firstLive deadEnclaves (candidates nodes.data requestID check) = some enc) ↔
      ∃ enc ∈ nodes, check.Accepts enc ∧ enc.enclaveID ∉ deadEnclaves := by
  rw [← Option.isSome_iff_exists, firstLive, List.find?_isSome]
  simp only [mem_candidates, decide_eq_true_iff, Slice.mem_def, and_assoc]

theorem firstLive_some {enc : PoolNode}
    (found : firstLive deadEnclaves (candidates nodes.data requestID check) = some enc) :
    enc ∈ nodes ∧ check.Accepts enc ∧ enc.enclaveID ∉ deadEnclaves := by
  unfold firstLive at found
  obtain ⟨member, accepted⟩ := mem_candidates.mp (List.mem_of_find?_eq_some found)
  have live := List.find?_some found
  exact ⟨member, accepted, of_decide_eq_true live⟩

theorem firstLive_insert {todo : List PoolNode} {enclaveID : Bytes32}
    (other : ∀ enc, firstLive deadEnclaves todo = some enc → enc.enclaveID ≠ enclaveID) :
    firstLive (deadEnclaves.insert enclaveID ()) todo = firstLive deadEnclaves todo := by
  induction todo with
  | nil => rfl
  | cons enc rest ih =>
      by_cases dead : enc.enclaveID ∈ deadEnclaves
      · have dead' : enc.enclaveID ∈ deadEnclaves.insert enclaveID () :=
          Finmap.mem_insert.mpr (Or.inr dead)
        rw [firstLive_cons_dead dead] at other ⊢
        rw [firstLive_cons_dead dead']
        exact ih other
      · rw [firstLive_cons_live dead] at other ⊢
        have live : enc.enclaveID ∉ deadEnclaves.insert enclaveID () := by
          rw [Finmap.mem_insert]
          exact fun dies => dies.elim (other enc rfl) dead
        exact firstLive_cons_live live

theorem selectEnclaves_insert {enclaveID : Bytes32}
    (other : ∀ enc, selectEnclaves deadEnclaves nodes requestID check = .ok [enc] →
      enc.enclaveID ≠ enclaveID) :
    selectEnclaves (deadEnclaves.insert enclaveID ()) nodes requestID check =
      selectEnclaves deadEnclaves nodes requestID check := by
  have same := @firstLive_insert deadEnclaves (candidates nodes.data requestID check) enclaveID
    fun enc found => other enc (selectEnclaves_ok_iff.mpr ⟨enc, found, rfl⟩)
  unfold selectEnclaves
  cases todo : candidates nodes.data requestID check with
  | nil => rfl
  | cons first rest =>
      rw [todo] at same
      dsimp only
      rw [same]

/-- With distinct IDs the sorted list does not depend on the order of the given one. -/
theorem sortEnclaveNodes_congr (distinct : (nodes.data.map (·.enclaveID)).Nodup)
    (perm : nodes.data.Perm nodes'.data) : sortEnclaveNodes nodes = sortEnclaveNodes nodes' := by
  refine Slice.data_injective (mergeSort_congr ?_ ?_ ?_ perm)
  · exact fun a b c first second => bytesLE_trans _ _ _ second first
  · intro a b
    rw [Bool.or_eq_true]
    exact bytesLE_total _ _
  · intro a b among among' le le'
    exact List.inj_on_of_nodup_map distinct among among'
      (Bytes32.data_injective (bytesLE_antisymm le' le))

theorem mem_sortEnclaveNodes {enc : PoolNode} : enc ∈ sortEnclaveNodes nodes ↔ enc ∈ nodes :=
  (List.mergeSort_perm _ _).mem_iff

end

/-- Two nodes are given the same enclaves, with distinct IDs, in any order. Once they have sorted
them, both select the same single enclave for a request, whatever the requirements and the dead
enclaves. They succeed exactly when some enclave meets the requirements and is not dead, and the
one selected does and is not. One more dead enclave changes nothing for the requests that had not
selected it. -/
theorem nodes_select_one_enclave (nodes nodes' : Slice PoolNode)
    (distinct : (nodes.data.map (·.enclaveID)).Nodup) (perm : nodes.data.Perm nodes'.data)
    (requestID : Bytes32) (check : RequirementsChecker) (deadEnclaves : GoMap Bytes32 Unit) :
    selectEnclaves deadEnclaves (sortEnclaveNodes nodes) requestID check =
        selectEnclaves deadEnclaves (sortEnclaveNodes nodes') requestID check ∧
      ((∃ selected, selectEnclaves deadEnclaves (sortEnclaveNodes nodes) requestID check =
          .ok selected) ↔
        ∃ enc ∈ nodes, check.Accepts enc ∧ enc.enclaveID ∉ deadEnclaves) ∧
      (∀ selected, selectEnclaves deadEnclaves (sortEnclaveNodes nodes) requestID check =
          .ok selected →
        ∃ enc ∈ nodes, selected = [enc] ∧ check.Accepts enc ∧ enc.enclaveID ∉ deadEnclaves) ∧
      (∀ enclaveID, (∀ enc, selectEnclaves deadEnclaves (sortEnclaveNodes nodes) requestID check =
          .ok [enc] → enc.enclaveID ≠ enclaveID) →
        selectEnclaves (deadEnclaves.insert enclaveID ()) (sortEnclaveNodes nodes) requestID
            check =
          selectEnclaves deadEnclaves (sortEnclaveNodes nodes) requestID check) := by
  refine ⟨by rw [sortEnclaveNodes_congr distinct perm], ?_, ?_, fun _ => selectEnclaves_insert⟩
  · constructor
    · rintro ⟨selected, ok⟩
      obtain ⟨enc, found, _⟩ := selectEnclaves_ok_iff.mp ok
      obtain ⟨member, live⟩ := firstLive_some found
      exact ⟨enc, mem_sortEnclaveNodes.mp member, live⟩
    · rintro ⟨enc, member, live⟩
      obtain ⟨enc', found⟩ :=
        firstLive_isSome_iff.mpr ⟨enc, mem_sortEnclaveNodes.mpr member, live⟩
      exact ⟨[enc'], selectEnclaves_ok_iff.mpr ⟨enc', found, rfl⟩⟩
  · intro selected ok
    obtain ⟨enc, found, isSelected⟩ := selectEnclaves_ok_iff.mp ok
    obtain ⟨member, live⟩ := firstLive_some found
    exact ⟨enc, mem_sortEnclaveNodes.mp member, isSelected, live⟩

namespace Sample

def bareNode (n : UInt8) : PoolNode := ⟨key n, ∅, ∅, ∅, ∅, ∅, ∅⟩

def bareNodes (m n : UInt8) : Slice PoolNode := ⟨[bareNode m, bareNode n], by simp⟩

def firstDead : GoMap Bytes32 Unit := (∅ : GoMap Bytes32 Unit).insert (key 1) ()

end Sample

section

open Sample

/-- Two enclaves, in both orders, of which one is dead. -/
theorem nodes_select_one_of_two :
    selectEnclaves firstDead (sortEnclaveNodes (bareNodes 1 2)) (key 7) none = .ok [bareNode 2] ∧
      selectEnclaves firstDead (sortEnclaveNodes (bareNodes 2 1)) (key 7) none =
        .ok [bareNode 2] := by
  obtain ⟨same, succeeds, selects, _⟩ := nodes_select_one_enclave (bareNodes 1 2)
    (bareNodes 2 1) (by decide) (.swap _ _ _) (key 7) none firstDead
  obtain ⟨selected, ok⟩ := succeeds.mpr
    ⟨bareNode 2, List.mem_cons_of_mem _ List.mem_cons_self, rfl, by decide⟩
  obtain ⟨enc, member, rfl, _, live⟩ := selects selected ok
  have isSecond : enc = bareNode 2 := by
    have among : enc = bareNode 1 ∨ enc = bareNode 2 := by
      simpa [Slice.mem_def, bareNodes] using member
    exact among.resolve_left fun isFirst => live (by rw [isFirst]; decide)
  rw [isSecond] at ok
  exact ⟨ok, same.symm.trans ok⟩

end

end ConfidentialCompute
