import TypedTree.Proofs.Optimize.FixedPoint
import Mathlib.Data.List.Nodup
/-! Rounds of passes. Whatever the passes do to each other, an optimization that ends before the limit ends with a
whole round in which none of them changes anything, and so with a fixed point of all of them. -/

namespace TypedTree

namespace Pass

variable {σ : Type}

/-- A pass that changes nothing when it says so. -/
def Honest (pass : Pass σ) : Prop := ∀ state, (pass.run state).2 = false → (pass.run state).1 = state

section Histories

def flags : List (Pass σ) → σ → List Bool
  | [], _ => []
  | pass :: passes, state => (pass.run state).2 :: flags passes (pass.run state).1

def history (passes : List (Pass σ)) : (limit : Nat) → σ → List (List Bool)
  | 0, _ => []
  | limit + 1, state =>
    flags passes state ::
      if (runOnce passes state).2 then history passes limit (runOnce passes state).1 else []

variable {passes : List (Pass σ)} {limit : Nat} {state : σ}

theorem length_flags (passes : List (Pass σ)) (state : σ) : (flags passes state).length = passes.length := by
  induction passes generalizing state with
  | nil => rfl
  | cons pass passes ih => simp only [flags, List.length_cons, ih]

theorem changed_runOnce_iff (passes : List (Pass σ)) (state : σ) :
    (runOnce passes state).2 = true ↔ true ∈ flags passes state := by
  induction passes generalizing state with
  | nil => simp [runOnce, flags]
  | cons pass passes ih =>
    simp only [runOnce, flags, Bool.or_eq_true, List.mem_cons, ih, eq_comm (a := true)]

theorem runOnce_of_quiet (honest : ∀ pass ∈ passes, pass.Honest) (quiet : (runOnce passes state).2 = false) :
    (runOnce passes state).1 = state ∧ ∀ pass ∈ passes, pass.run state = (state, false) := by
  induction passes with
  | nil => exact ⟨rfl, nofun⟩
  | cons pass passes ih =>
    obtain ⟨first, rest⟩ := List.forall_mem_cons.mp honest
    obtain ⟨unchanged, others⟩ := Bool.or_eq_false_iff.mp quiet
    have same := first state unchanged
    rw [same] at others
    obtain ⟨sameRest, settled⟩ := ih rest others
    simp only [runOnce, same]
    exact ⟨sameRest, List.forall_mem_cons.mpr ⟨Prod.ext same unchanged, settled⟩⟩

/-- An optimization takes one round more than those that change something, unless that is one too many. -/
theorem length_history (passes : List (Pass σ)) (limit : Nat) (state : σ) :
    (history passes limit state).length =
      if (runRounds passes limit state).2 < limit then (runRounds passes limit state).2 + 1 else limit := by
  induction limit generalizing state with
  | zero => rfl
  | succ limit ih =>
    simp only [history, runRounds, List.length_cons]
    cases (runOnce passes state).2 with
    | false => rfl
    | true =>
      simp only [if_true, ih, Nat.succ_lt_succ_iff]
      split <;> rfl

theorem length_of_mem_history : ∀ round ∈ history passes limit state, round.length = passes.length := by
  induction limit generalizing state with
  | zero => exact nofun
  | succ limit ih =>
    rw [history, List.forall_mem_cons]
    refine ⟨length_flags passes state, ?_⟩
    split
    · exact ih
    · exact nofun

theorem changed_of_lt_rounds {round : Nat} (counted : round < (runRounds passes limit state).2) :
    ∃ said, (history passes limit state)[round]? = some said ∧ true ∈ said := by
  induction limit generalizing state round with
  | zero => cases counted
  | succ limit ih =>
    cases changed : (runOnce passes state).2 with
    | false =>
      simp only [runRounds, changed, Bool.false_eq_true, if_false] at counted
      cases counted
    | true =>
      simp only [runRounds, changed, if_true] at counted
      simp only [history, changed, if_true]
      cases round with
      | zero => exact ⟨_, rfl, (changed_runOnce_iff passes state).mp changed⟩
      | succ round => exact ih (Nat.lt_of_succ_lt_succ counted)

/-- An optimization that does not run out of rounds ends with a state that no pass changes. -/
theorem settled_of_rounds_lt (honest : ∀ pass ∈ passes, pass.Honest)
    (less : (runRounds passes limit state).2 < limit) :
    ∀ pass ∈ passes, pass.run (runRounds passes limit state).1 = ((runRounds passes limit state).1, false) := by
  induction limit generalizing state with
  | zero => cases less
  | succ limit ih =>
    cases changed : (runOnce passes state).2 with
    | false =>
      obtain ⟨same, settled⟩ := runOnce_of_quiet honest changed
      simp only [runRounds, changed, Bool.false_eq_true, if_false, same]
      exact settled
    | true =>
      simp only [runRounds, changed, if_true] at less ⊢
      exact ih (Nat.lt_of_succ_lt_succ less)

end Histories

section Notes

def noted (pass : Pass σ) (index : Nat) : Pass (σ × List (Bool × Nat)) where
  name := pass.name
  run state :=
    let after := pass.run state.1
    ((after.1, state.2 ++ [(after.2, index)]), after.2)

/-- The passes of a list with notes of all their runs, numbered from some number on. -/
def notedFrom (start : Nat) (passes : List (Pass σ)) : List (Pass (σ × List (Bool × Nat))) :=
  (passes.zipIdx start).map fun entry => entry.1.noted entry.2

theorem run_noted (pass : Pass σ) (index : Nat) (state : σ) (notes : List (Bool × Nat)) :
    (pass.noted index).run (state, notes) =
      (((pass.run state).1, notes ++ [((pass.run state).2, index)]), (pass.run state).2) := rfl

theorem notedFrom_cons (start : Nat) (pass : Pass σ) (passes : List (Pass σ)) :
    notedFrom start (pass :: passes) = pass.noted start :: notedFrom (start + 1) passes := rfl

theorem runOnce_notedFrom (start : Nat) (passes : List (Pass σ)) (state : σ) (notes : List (Bool × Nat)) :
    runOnce (notedFrom start passes) (state, notes) =
      (((runOnce passes state).1, notes ++ (flags passes state).zipIdx start), (runOnce passes state).2) := by
  induction passes generalizing start state notes with
  | nil => simp [notedFrom, runOnce, flags]
  | cons pass passes ih =>
    simp only [notedFrom_cons, runOnce, run_noted, flags, ih, List.zipIdx_cons, List.append_assoc,
      List.singleton_append]

theorem runRounds_notedFrom (passes : List (Pass σ)) (limit : Nat) (state : σ) (notes : List (Bool × Nat)) :
    runRounds (notedFrom 0 passes) limit (state, notes) =
      (((runRounds passes limit state).1, notes ++ (history passes limit state).flatMap fun said => said.zipIdx),
        (runRounds passes limit state).2) := by
  induction limit generalizing state notes with
  | zero => simp [runRounds, history]
  | succ limit ih =>
    simp only [runRounds, runOnce_notedFrom, history]
    cases (runOnce passes state).2 with
    | false => simp
    | true => simp only [if_true, ih, List.flatMap_cons, List.append_assoc]

theorem count_notes {rounds : List (List Bool)} {index count : Nat}
    (full : ∀ said ∈ rounds, said.length = count) (inside : index < count) :
    ((rounds.flatMap fun said => said.zipIdx).map Prod.snd).count index = rounds.length := by
  induction rounds with
  | nil => rfl
  | cons said rounds ih =>
    obtain ⟨first, rest⟩ := List.forall_mem_cons.mp full
    have once : ((said.zipIdx).map Prod.snd).count index = 1 := by
      rw [List.zipIdx_map_snd, first, List.count_eq_one_of_mem List.nodup_range' (by simpa using inside)]
    rw [List.flatMap_cons, List.map_append, List.count_append, once, ih rest, List.length_cons, Nat.add_comm]

end Notes

/-- The rounds of an optimization, whatever the passes are that change nothing when they say so. There are at most
as many rounds with a change as the limit allows. With fewer there is one more round, without a change, and what is
left is a fixed point of every pass; otherwise the last round is the last one allowed. Every round runs all passes
in order, and in each round that is counted some pass says that it has changed something. -/
theorem optimize_outcome (passes : List (Pass σ)) (honest : ∀ pass ∈ passes, pass.Honest) (state : σ) :
    let ended := optimize passes state
    let noting := optimize (notedFrom 0 passes) (state, [])
    let times := if ended.2 < maxRounds then ended.2 + 1 else maxRounds
    ended.2 ≤ maxRounds ∧ (noting.1.1, noting.2) = ended ∧
      (∃ rounds : List (List Bool), noting.1.2 = (rounds.flatMap fun said => said.zipIdx) ∧ rounds.length = times ∧
        (∀ said ∈ rounds, said.length = passes.length) ∧
        ∀ round < ended.2, ∃ said, rounds[round]? = some said ∧ true ∈ said) ∧
      (∀ index < passes.length, (noting.1.2.map Prod.snd).count index = times) ∧
      (ended.2 < maxRounds → ∀ pass ∈ passes, pass.run ended.1 = (ended.1, false)) := by
  intro ended noting times
  have notes : noting = ((ended.1, (history passes maxRounds state).flatMap fun said => said.zipIdx), ended.2) :=
    runRounds_notedFrom passes maxRounds state []
  have length : (history passes maxRounds state).length = times := length_history passes maxRounds state
  simp only [notes]
  refine ⟨runRounds_le passes maxRounds state, trivial, ⟨_, rfl, length, length_of_mem_history, ?_⟩, ?_,
    settled_of_rounds_lt honest⟩
  · exact fun round counted => changed_of_lt_rounds counted
  · intro index inside
    rw [count_notes length_of_mem_history inside, length]

/-- A pass that splits a literal and folding undo each other's work for a while: the literal 4 becomes `2 + 1`, which
is folded, and 3 is not split any more. The second pass keeps the first one going, and the quiet round comes third. -/
theorem optimize_outcome_split :
    let main := fun value : Expr => Program.mk [] [.function
      { name := "main", returns := .void, body := [.declare "x" .int32 (some value)] }]
    let split : Pass Program := { name := "Split", run := fun program =>
      match program.decls with
      | [.function ⟨_, _, _, _, [.declare _ _ (some (.int value _))]⟩] =>
        if value = 4 then (main (.arithmetic .add (.int 2 none) (.int 1 none) none), true) else (program, false)
      | _ => (program, false) }
    let ended := optimize [folding, split] (main (.int 4 none))
    (∀ pass ∈ [folding, split], pass.Honest) ∧ ended = (main (.int 3 (some .int32)), 2) ∧
      (optimize (notedFrom 0 [folding, split]) (main (.int 4 none), [])).1.2 =
        [(false, 0), (true, 1), (true, 0), (false, 1), (false, 0), (false, 1)] ∧
      folding.run ended.1 = (ended.1, false) ∧ split.run ended.1 = (ended.1, false) := by
  intro main split ended
  have honest : ∀ pass ∈ [folding, split], pass.Honest := by
    refine List.forall_mem_cons.mpr ⟨fun program => program.fold_eq_self_iff.mpr, List.forall_mem_singleton.mpr ?_⟩
    intro program quiet
    simp only [split] at quiet ⊢
    split at quiet
    · split at quiet
      · cases quiet
      · rw [if_neg ‹_›]
    · rfl
  have outcome : ended = (main (.int 3 (some .int32)), 2) := rfl
  obtain ⟨_, _, _, _, settled⟩ := optimize_outcome [folding, split] honest (main (.int 4 none))
  have settled := settled (by decide)
  exact ⟨honest, outcome, rfl, settled folding (.head _), settled split (.tail _ (.head _))⟩

end Pass

end TypedTree
